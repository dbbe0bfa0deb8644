import Sprog.Environment

/-!
# The state of a run

A `Machine` holds everything that one statement leaves for the next: the scopes, the number of
active calls, where printed text goes, the log of calls, the clock, and the identities not yet
given away.
-/
namespace Sprog

/-- Where printed text goes: the bytes taken so far, and how many more fit if that is limited. -/
structure Sink where
  written : ByteArray
  room : Option Nat

namespace Sink

/-- An empty sink. -/
def ofRoom (room : Option Nat) : Sink := ⟨.empty, room⟩

/-- Takes as many of the bytes as fit, and says whether that was all of them. -/
def write (s : Sink) (bytes : ByteArray) : Sink × Bool :=
  match s.room with
  | none => (⟨s.written ++ bytes, none⟩, true)
  | some room =>
    (⟨s.written ++ bytes.extract 0 room, some (room - bytes.size)⟩, bytes.size ≤ room)

end Sink

/-- One call: whom, with how many arguments, and how many calls were active before it. -/
structure CallRecord where
  name : String
  arguments : Nat
  depth : Nat
  deriving DecidableEq, Repr

def CallRecord.text (r : CallRecord) : String :=
  "call " ++ r.name ++ " with " ++ toString r.arguments ++ " argument(s), depth " ++
    toString r.depth

/-- The times that questions for the time are answered with, in milliseconds, and how many were
asked so far. -/
structure Clock where
  reading : Nat → Float
  asked : Nat

namespace Clock

/-- A clock that stands still. -/
def fixed (time : Float) : Clock := ⟨fun _ => time, 0⟩

/-- The answer to the next question. -/
def now (c : Clock) : Float := c.reading c.asked

/-- The clock after one more question. -/
def tick (c : Clock) : Clock := { c with asked := c.asked + 1 }

end Clock

structure Machine where
  env : Environment
  /-- The number of active calls. -/
  depth : Nat
  sink : Sink
  /-- The calls made so far, in order. -/
  log : Array CallRecord
  clock : Clock
  /-- No callable has this identity or a later one. -/
  fresh : Nat

namespace Machine

/-- The functions of the host that are there from the start. -/
def builtins : List Native := [⟨"Clock", 0, .clock⟩]

/-- Binds a function of the host in the current scope. -/
def provide (m : Machine) (f : Native) : Machine :=
  { m with
    env := m.env.define f.name (.callable ⟨m.fresh, .native f⟩)
    fresh := m.fresh + 1 }

/-- The state before the first statement. -/
def start (clock : Clock) (room : Option Nat) : Machine :=
  builtins.foldl provide ⟨.empty, 0, .ofRoom room, #[], clock, 0⟩

/-- The state after `count` identities were given away to callables of the host. -/
def reserve (m : Machine) (count : Nat) : Machine :=
  { m with fresh := m.fresh + count }

/-- The state without a memory of what was printed and called. -/
def flush (m : Machine) : Machine :=
  { m with sink := { m.sink with written := .empty }, log := #[] }

end Machine

end Sprog
