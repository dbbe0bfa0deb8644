import Mathlib.Data.List.Chain
import Sprog.Evaluation

/-!
# Calls inside one another

A run enters calls and leaves them again, and it may be refused a call because too many are active.
`CallEvent` lists what happens, and `Nests` says that it happens in order: a call is entered only
below the limit, refused only at the limit, and left only if one is active.

* `records`: the calls that are entered, each with the number of calls active before it.
* `Nests.active_eq`: the active calls are those entered and not left.
* `Nests.records_append`: what happens behind something else.
* `Nests.depth_lt`, `Nests.isChain_records`: the depths of the records, one after the other.
* `Nests.range_sublist`: on the way to some number of active calls every depth below it is passed.
-/
namespace Sprog

/-- What happens to calls. -/
inductive CallEvent where
  /-- A call becomes active. -/
  | enter (name : String) (arguments : Nat)
  /-- A call that could be made, if not too many were active. -/
  | refuse (closing : Token) (name : String) (arguments : Nat)
  /-- The last call that became active is over. -/
  | leave
  deriving Repr

namespace CallEvent

def isEnter : CallEvent → Bool
  | enter .. => true
  | refuse .. | leave => false

def isRefuse : CallEvent → Bool
  | refuse .. => true
  | enter .. | leave => false

def isLeave : CallEvent → Bool
  | leave => true
  | enter .. | refuse .. => false

/-- The number of calls that are active behind the events: those entered and not left. -/
def active (es : List CallEvent) : Nat := es.countP isEnter - es.countP isLeave

/-- The calls that are entered, each with the number of calls that are active then, if at first `d`
calls are. -/
def records : Nat → List CallEvent → List CallRecord
  | _, [] => []
  | d, enter name arguments :: es => ⟨name, arguments, d⟩ :: records (d + 1) es
  | d, refuse .. :: es => records d es
  | d, leave :: es => records (d - 1) es

/-- The events happen in order, with `d` calls active at first and `d'` at the end. -/
inductive Nests : Nat → List CallEvent → Nat → Prop where
  | nil {d : Nat} : Nests d [] d
  | enter {d d' : Nat} {name : String} {arguments : Nat} {es : List CallEvent} :
      d < Eval.callLimit → Nests (d + 1) es d' → Nests d (enter name arguments :: es) d'
  | refuse {d d' : Nat} {closing : Token} {name : String} {arguments : Nat}
      {es : List CallEvent} :
      d = Eval.callLimit → Nests d es d' → Nests d (refuse closing name arguments :: es) d'
  | leave {d d' : Nat} {es : List CallEvent} : Nests d es d' → Nests (d + 1) (leave :: es) d'

namespace Nests

variable {d d' d'' : Nat} {es es' : List CallEvent}

theorem append (h : Nests d es d') (h' : Nests d' es' d'') : Nests d (es ++ es') d'' := by
  induction h with
  | nil => exact h'
  | enter hlt _ ih => exact .enter hlt (ih h')
  | refuse heq _ ih => exact .refuse heq (ih h')
  | leave _ ih => exact .leave (ih h')

/-- Events in order can be cut anywhere. -/
theorem of_append (h : Nests d (es ++ es') d'') : ∃ d', Nests d es d' ∧ Nests d' es' d'' := by
  induction es generalizing d with
  | nil => exact ⟨d, .nil, h⟩
  | cons e es ih =>
    cases h with
    | enter hlt h =>
      obtain ⟨d', h₁, h₂⟩ := ih h
      exact ⟨d', .enter hlt h₁, h₂⟩
    | refuse heq h =>
      obtain ⟨d', h₁, h₂⟩ := ih h
      exact ⟨d', .refuse heq h₁, h₂⟩
    | leave h =>
      obtain ⟨d', h₁, h₂⟩ := ih h
      exact ⟨d', .leave h₁, h₂⟩

theorem count (h : Nests d es d') : d + es.countP isEnter = d' + es.countP isLeave := by
  induction h with
  | nil => rfl
  | enter _ _ ih =>
    rw [List.countP_cons_of_pos rfl, List.countP_cons_of_neg Bool.false_ne_true]
    omega
  | refuse _ _ ih =>
    rwa [List.countP_cons_of_neg Bool.false_ne_true, List.countP_cons_of_neg Bool.false_ne_true]
  | leave _ ih =>
    rw [List.countP_cons_of_neg Bool.false_ne_true, List.countP_cons_of_pos rfl]
    omega

theorem active_eq (h : Nests 0 es d') : active es = d' := by
  have hcount := h.count
  unfold active
  omega

theorem records_append (h : Nests d es d') (es' : List CallEvent) :
    records d (es ++ es') = records d es ++ records d' es' := by
  induction h with
  | nil => rfl
  | enter _ _ ih => exact congrArg (List.cons _) ih
  | refuse _ _ ih => exact ih
  | leave _ ih => exact ih

/-- Every call that is entered stays below the limit. -/
theorem depth_lt (h : Nests d es d') : ∀ r ∈ records d es, r.depth < Eval.callLimit := by
  induction h with
  | nil => simp [records]
  | enter hlt _ ih => exact List.forall_mem_cons.2 ⟨hlt, ih⟩
  | refuse _ _ ih => exact ih
  | leave _ ih => exact ih

/-- The first call that is entered is no deeper than the calls that are active. -/
theorem head_le (h : Nests d es d') : ∀ r ∈ (records d es).head?, r.depth ≤ d := by
  induction h with
  | nil => simp [records]
  | enter _ _ _ => simp [records]
  | refuse _ _ ih => exact ih
  | leave _ ih =>
    intro r hr
    exact Nat.le_succ_of_le (ih r hr)

/-- A call that is entered is at most one deeper than the one entered before it. -/
theorem isChain_records (h : Nests d es d') :
    (records d es).IsChain fun r r' => r'.depth ≤ r.depth + 1 := by
  induction h with
  | nil => exact .nil
  | enter _ h ih => exact List.isChain_cons.2 ⟨h.head_le, ih⟩
  | refuse _ _ ih => exact ih
  | leave _ ih => exact ih

/-- On the way to a greater number of active calls, a call of every depth in between is entered. -/
theorem range_sublist (h : Nests d es d') :
    (List.range' d (d' - d)).Sublist ((records d es).map CallRecord.depth) := by
  induction h with
  | nil => simp [records]
  | @enter d d' name arguments es _ _ ih =>
    rcases Nat.lt_or_ge d d' with hlt | hge
    · -- this call is the one of depth `d`
      have hsize : d' - d = d' - (d + 1) + 1 := by omega
      rw [hsize, List.range'_succ]
      exact ih.cons_cons d
    · rw [show d' - d = 0 by omega]
      exact List.nil_sublist _
  | refuse _ _ ih => exact ih
  | @leave d d' es _ ih =>
    rcases Nat.lt_or_ge d d' with hlt | hge
    · -- what follows starts one lower, and so it enters one call more than is asked for
      have hsize : d' - d = d' - (d + 1) + 1 := by omega
      rw [hsize, List.range'_succ] at ih
      exact (List.sublist_cons_self _ _).trans ih
    · rw [show d' - (d + 1) = 0 by omega]
      exact List.nil_sublist _

end Nests

end CallEvent

end Sprog
