import Sprog.Proofs.Blanks
import Sprog.Proofs.Erasure

/-!
# Words with a space between them

A space ends every word and no word ends with one or has to be followed by anything. So the words
of a source text, written one behind the other with a space between them, are read as the same words
again: whatever stood between them at first, blanks, comments, line feeds or characters that fit
nowhere, has no part in what they are.

* `Segment.divide_spaced`: the division of words with a space between them.
* `map_unplaced_collect`: the words of segments, whatever their lines.
* `tokenize_respaced`: reading words, writing them and reading them again.
-/
namespace Sprog

namespace Segment

/-- Whether the segment is a token. -/
def isToken (s : Segment) : Bool := (s.token? 0).isSome

/-- A space between two tokens. -/
def space : Segment := ⟨[' '], .blank⟩

theorem stops_space : Stops ' ' := ⟨by decide, by decide, by decide, by decide⟩

theorem not_goesOn_of_isToken {s : Segment} (h : s.isToken = true) (w : Char) : ¬ GoesOn w s := by
  rintro (hrole | ⟨-, hrole⟩) <;> simp [isToken, token?, hrole] at h

/-- A segment in front of a character that ends it. -/
theorem Fits.divide_append {s : Segment} (h : Fits s) {w : Char} (hw : Stops w)
    (hends : ¬ GoesOn w s) (us : List Char) :
    divide (s.text ++ w :: us) = s :: divide (w :: us) := by
  have hall : ∀ s' ∈ divide s.text, ¬ GoesOn w s' := by
    rw [h.divide_eq]
    exact List.forall_mem_singleton.2 hends
  rw [Segment.divide_append hw hall, h.divide_eq]
  rfl

/-- A token in front of a space. -/
theorem Fits.divide_append_space {s : Segment} (h : Fits s) (htoken : s.isToken = true)
    (us : List Char) : divide (s.text ++ ' ' :: us) = s :: space :: divide us := by
  rw [h.divide_append stops_space (not_goesOn_of_isToken htoken ' '), divide]
  rfl

/-- Tokens with a space between them are divided into them and the spaces. -/
theorem divide_spaced {ss : List Segment} (h : ∀ s ∈ ss, Fits s ∧ s.isToken = true) :
    divide ([' '].intercalate (ss.map text)) = ss.intersperse space := by
  induction ss with
  | nil => exact divide.eq_1
  | cons s ss ih =>
    obtain ⟨⟨hs, htoken⟩, hrest⟩ := List.forall_mem_cons.1 h
    cases ss with
    | nil =>
      rw [List.map_singleton, List.intercalate_singleton, List.intersperse_singleton, hs.divide_eq]
    | cons s' ss =>
      rw [List.map_cons, List.map_cons, List.intercalate_cons_cons, List.append_assoc,
        List.singleton_append, hs.divide_append_space htoken, List.intersperse_cons_cons,
        ← List.map_cons, ih hrest]

/-! ## Words, whatever their lines -/

theorem token?_zero (s : Segment) (line : Nat) :
    (s.token? line).map Token.unplaced = s.token? 0 := by
  unfold token?
  cases s.role <;> rfl

/-- The words of segments do not depend on where their lines are counted from. -/
theorem map_unplaced_collect (line : Nat) (ss : List Segment) :
    (collect token? line ss).map Token.unplaced = ss.filterMap (·.token? 0) := by
  induction ss generalizing line with
  | nil => rfl
  | cons s ss ih =>
    rw [collect, List.map_append, ih, List.filterMap_cons, ← token?_zero s (s.endsOn line)]
    cases s.token? (s.endsOn line) <;> rfl

theorem lexeme_of_token? {s : Segment} {line : Nat} {t : Token} (h : s.token? line = some t) :
    t.lexeme = String.ofList s.text := by
  unfold token? at h
  cases hrole : s.role <;> rw [hrole] at h <;> cases h
  rfl

/-- The lexemes of segments are the texts of those that are tokens. -/
theorem map_lexeme_collect (line : Nat) (ss : List Segment) :
    (collect token? line ss).map (·.lexeme.toList) = (ss.filter isToken).map text := by
  induction ss generalizing line with
  | nil => rfl
  | cons s ss ih =>
    rw [collect, List.map_append, ih, List.filter_cons]
    have hzero := token?_zero s (s.endsOn line)
    cases ht : s.token? (s.endsOn line) with
    | none =>
      rw [ht] at hzero
      simp [isToken, ← hzero]
    | some t =>
      rw [ht] at hzero
      simp [isToken, ← hzero, lexeme_of_token? ht]

theorem filterMap_filter_isToken (ss : List Segment) :
    (ss.filter isToken).filterMap (·.token? 0) = ss.filterMap (·.token? 0) := by
  induction ss with
  | nil => rfl
  | cons s ss ih =>
    rw [List.filter_cons]
    split
    · rw [List.filterMap_cons, List.filterMap_cons, ih]
    · rename_i hnone
      rw [ih, List.filterMap_cons, Option.not_isSome_iff_eq_none.1 hnone]

/-- The spaces give nothing. -/
theorem filterMap_intersperse {α : Type} {f : Segment → Option α} (hf : f space = none)
    (ss : List Segment) : (ss.intersperse space).filterMap f = ss.filterMap f := by
  fun_induction List.intersperse space ss with
  | case1 => rfl
  | case2 => rfl
  | case3 s s' ss ih => rw [List.filterMap_cons, List.filterMap_cons, hf, ih]; rfl

theorem fault?_of_isToken {s : Segment} (h : s.isToken = true) (line : Nat) :
    s.fault? line = none := by
  unfold isToken token? at h
  unfold fault?
  cases hrole : s.role <;> simp [hrole] at h ⊢

theorem collect_fault?_eq_nil {ss : List Segment} (h : ∀ s ∈ ss, ∀ line, s.fault? line = none)
    (line : Nat) : collect fault? line ss = [] := by
  induction ss generalizing line with
  | nil => rfl
  | cons s ss ih =>
    obtain ⟨hs, hrest⟩ := List.forall_mem_cons.1 h
    rw [collect, hs, ih hrest]
    rfl

theorem mem_intersperse {α : Type} {sep a : α} {l : List α} (h : a ∈ l.intersperse sep) :
    a = sep ∨ a ∈ l := by
  fun_induction List.intersperse sep l <;> grind

end Segment

open Segment

/-- The words of a source text with a space between them. -/
def respaced (source : String) : String :=
  " ".intercalate ((beforeEnd (tokenize source).items).map Token.lexeme)

theorem toList_respaced (source : String) : (respaced source).toList =
    [' '].intercalate (((divide source.toList).filter isToken).map text) := by
  have hbefore : beforeEnd (tokenize source).items = collect token? 1 (divide source.toList) := by
    rw [tokenize_eq, beforeEnd_append (kind_collect_ne_eof 1 source.toList)]
    exact List.append_nil _
  rw [respaced, String.toList_intercalate, hbefore, List.map_map, ← map_lexeme_collect 1]
  rfl

/-- Writing the words of a source text with a space between them, and reading that, gives the same
words without any fault, whether or not the source text has one. -/
theorem tokenize_respaced (source : String) :
    (tokenize (respaced source)).errors = [] ∧
      (tokenize (respaced source)).items.map Token.unplaced =
        (tokenize source).items.map Token.unplaced := by
  have hwords : ∀ s ∈ (divide source.toList).filter isToken, Fits s ∧ s.isToken = true := by
    intro s hs
    obtain ⟨hmem, htoken⟩ := List.mem_filter.1 hs
    exact ⟨(division_iff.2 rfl : Division source.toList _).fits s hmem, htoken⟩
  have hdivide : divide (respaced source).toList =
      ((divide source.toList).filter isToken).intersperse space := by
    rw [toList_respaced, divide_spaced hwords]
  rw [tokenize_eq, tokenize_eq source, hdivide]
  constructor
  · refine collect_fault?_eq_nil (fun s hs line => ?_) 1
    rcases mem_intersperse hs with rfl | hs
    · rfl
    · exact fault?_of_isToken (hwords s hs).2 line
  · rw [List.map_append, List.map_append, map_unplaced_collect, map_unplaced_collect,
      filterMap_intersperse rfl, filterMap_filter_isToken]
    rfl

/-- The slashes are no comment, the equals signs are two and the point belongs to no number. -/
example : respaced "12 // b\n.5@ / /=#=" = "12 . 5 / / = =" := by decide +kernel

end Sprog
