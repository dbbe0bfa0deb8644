import Sprog.Text.Blank
import Sprog.Text.Cluster

/-!
# Lines as they are typed

A backspace takes back the cluster typed before it, and does nothing where there is none. The size
of a cluster is remembered in one byte, so of a cluster of 256 bytes or more only the last
`size % 256` bytes go.

* `typed_of_not_mem`: a line without a backspace is taken as it is.
* `typedLines`: the lines of a text, each as it was typed.
-/
namespace Sprog.Text

/-- The character that takes back what was typed before it. -/
def backspace : Char := '\x08'

/-- The number of bytes of a text. -/
def byteCount : List Char → Nat
  | [] => 0
  | c :: cs => c.utf8Size + byteCount cs

/-- The text without its first characters, as many as make up `n` bytes. -/
def dropBytes : Nat → List Char → List Char
  | _, [] => []
  | 0, cs => cs
  | n + 1, c :: cs => dropBytes (n + 1 - c.utf8Size) cs

/-- What is left of a line so far. -/
structure Typed where
  /-- The characters, with the last one first. -/
  chars : List Char
  /-- The remembered sizes of the clusters, with the last one first. -/
  sizes : List Nat

/-- What is left after one more cluster. -/
def Typed.press (t : Typed) (cluster : List Char) : Typed :=
  if cluster = [backspace] then
    match t.sizes with
    | [] => t
    | size :: sizes => ⟨dropBytes size t.chars, sizes⟩
  else ⟨cluster.reverse ++ t.chars, byteCount cluster % 256 :: t.sizes⟩

/-- What is left of a line when all of it is typed. -/
def typed (line : List Char) : List Char :=
  ((clusters line).foldl Typed.press ⟨[], []⟩).chars.reverse

theorem chars_foldl_press (css : List (List Char)) (t : Typed) (h : ∀ cs ∈ css, cs ≠ [backspace]) :
    (css.foldl Typed.press t).chars = css.flatten.reverse ++ t.chars := by
  induction css generalizing t with
  | nil => rfl
  | cons cs css ih =>
    have hcs := h cs (List.mem_cons_self ..)
    rw [List.foldl_cons, ih _ fun x hx => h x (List.mem_cons_of_mem _ hx)]
    simp [Typed.press, hcs]

/-- A line without a backspace is taken as it is. -/
theorem typed_of_not_mem (line : List Char) (h : backspace ∉ line) : typed line = line := by
  have hc : ∀ cs ∈ clusters line, cs ≠ [backspace] := by
    intro cs hcs he
    subst he
    apply h
    rw [← flatten_clusters line]
    exact List.mem_flatten_of_mem hcs (List.mem_cons_self ..)
  simp [typed, chars_foldl_press _ _ hc, flatten_clusters]

/-- The lines of a text, each as it was typed. -/
def typedLines (input : String) : List (List Char) :=
  (lines input.toList).map typed

example : typed "skriw\x08v e\u0301\x08\x08\x08".toList = "skri".toList := by decide +kernel

end Sprog.Text
