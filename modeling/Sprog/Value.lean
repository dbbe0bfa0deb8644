import Sprog.Number.Shortest
import Sprog.Tree

/-!
# Values

A value is nothing, a truth value, a number, a text, or something that can be called. Two callables
are the same only if they came into being together, so each carries an identity of its own; the
function of a declaration gets a new one every time the declaration runs.
-/
namespace Sprog

/-- A declared function. It sees its own scope and the global one. -/
structure Function where
  name : Token
  parameters : List Token
  body : List Stmt
  deriving Repr

/-- What runs when a function of the host is called. -/
inductive Native.Routine where
  /-- The one that is there from the start: it answers with the time. -/
  | clock
  /-- One of the host's own, by its number. -/
  | foreign (key : Nat)
  deriving DecidableEq, Repr

/-- A function of the host. -/
structure Native where
  name : String
  arity : Nat
  routine : Native.Routine
  deriving DecidableEq, Repr

/-- What runs when a callable is called. -/
inductive Callable.Code where
  | function (f : Function)
  | native (f : Native)
  deriving Repr

structure Callable where
  identity : Nat
  code : Callable.Code
  deriving Repr

namespace Callable

def name (c : Callable) : String :=
  match c.code with
  | .function f => f.name.lexeme
  | .native f => f.name

/-- The number of arguments it takes. -/
def arity (c : Callable) : Nat :=
  match c.code with
  | .function f => f.parameters.length
  | .native f => f.arity

def text (c : Callable) : String :=
  match c.code with
  | .function _ => "<gøremål " ++ c.name ++ ">"
  | .native _ => "<native gøremål " ++ c.name ++ ">"

end Callable

inductive Value where
  | nil
  | bool (value : Bool)
  | number (value : Float)
  | text (value : String)
  | callable (value : Callable)
  deriving Repr

namespace Value

def ofConstant : Constant → Value
  | .nil => nil
  | .bool b => bool b
  | .number x => number x
  | .text s => text s

/-- Only nothing and the false truth value are not truthy. -/
def truthy : Value → Bool
  | nil => false
  | bool b => b
  | number _ | text _ | callable _ => true

/-- Equality as the language sees it: never between different sorts, between numbers as IEEE 754
has it, between callables by identity. -/
def same : Value → Value → Bool
  | nil, nil => true
  | bool a, bool b => a == b
  | number a, number b => a == b
  | text a, text b => a == b
  | callable a, callable b => a.identity == b.identity
  | _, _ => false

/-- How a value is printed. -/
def shown : Value → String
  | nil => "ingenting"
  | bool true => "sandt"
  | bool false => "falsk"
  | number x => Number.text x
  | text s => s
  | callable c => c.text

end Value

end Sprog
