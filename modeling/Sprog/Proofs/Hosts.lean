import Sprog.Session

/-!
# Hosts that stay outside

The routines of a host may do anything with the machine, so most of what holds of all runs holds for
hosts that keep to some condition. The one that is asked for most is that the routines stay outside
(`Host.Aloof`): they do not touch the machine. What such a routine answers, and whether it ends at
all, may depend on its arguments and on the time.

* `Eval.outside`: a reply from outside.
* `Host.Aloof.invoke`: every function of an aloof host gives one.
* `Eval.outside_cases`: what a reply does to the machine.
-/
namespace Sprog

namespace Clock

/-- The answers that are still to come. -/
def coming (c : Clock) : Nat → Float := fun t => c.reading (c.asked + t)

/-- The clock after so many more questions. -/
def skip (c : Clock) (count : Nat) : Clock := { c with asked := c.asked + count }

end Clock

/-- What a routine comes to, and how often it asks for the time, by the answers to come; or
nothing, if it does not end. -/
abbrev Reply := (Nat → Float) → Option (Except Fault Value × Nat)

/-- Takes a reply and leaves the machine alone. -/
def Eval.outside (reply : Reply) : Eval Value := fun m =>
  match reply m.clock.coming with
  | none => .exhausted
  | some (x, count) => Eval.lift x { m with clock := m.clock.skip count }

/-- Each routine replies from outside. -/
def Host.Aloof (host : Host) : Prop :=
  ∀ key args, ∃ reply, host key args = Eval.outside reply

theorem Host.aloof_bare : Host.bare.Aloof :=
  fun _ _ => ⟨fun _ => some (.ok .nil, 0), rfl⟩

/-- A host with one routine, which gives back the last of its arguments. -/
def Host.echo : Host := fun _ args => return args.getLastD .nil

theorem Host.aloof_echo : Host.echo.Aloof :=
  fun _ args => ⟨fun _ => some (.ok (args.getLastD .nil), 0), rfl⟩

/-- The time is such a reply as well. -/
theorem Host.Aloof.invoke {host : Host} (h : host.Aloof) (f : Native) (args : List Value) :
    ∃ reply, f.invoke host args = Eval.outside reply := by
  unfold Native.invoke
  cases f.routine with
  | clock => exact ⟨fun coming => some (.ok (.number (coming 0)), 1), rfl⟩
  | foreign key => exact h key args

theorem Eval.outside_cases (reply : Reply) (m : Machine) :
    Eval.outside reply m = .exhausted ∨
      ∃ x clock, Eval.outside reply m = Eval.lift x { m with clock } := by
  unfold Eval.outside
  cases reply m.clock.coming with
  | none => exact .inl rfl
  | some x => exact .inr ⟨x.1, _, rfl⟩

end Sprog
