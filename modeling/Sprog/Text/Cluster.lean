import Sprog.Text.Bond

/-!
# What a reader takes for one character

`clusters` divides a text into its extended grapheme clusters. Whether a character joins the
cluster before it is decided by the bonds of that cluster alone, so the division goes from the
front to the back.

* `flatten_clusters`: the division loses nothing.
-/
namespace Sprog.Text

namespace Bond

/-- The bonds end in a picture with any number of marks; the last bond comes first. -/
def endsInPicture : List Bond → Bool
  | .pictographic :: _ => true
  | .extend :: before | .nonJoiner :: before | .linker :: before => endsInPicture before
  | _ => false

/-- The bonds end in an odd number of letters of a flag; the last bond comes first. -/
def endsInHalfFlag : List Bond → Bool
  | .regional :: before => !endsInHalfFlag before
  | _ => false

/-- The bonds end in a consonant and marks with a linker among them; the last bond comes first.
`linked` says whether a linker was passed already. -/
def endsInLink (linked : Bool) : List Bond → Bool
  | .consonant :: _ => linked
  | .linker :: before => endsInLink true before
  | .extend :: before | .joiner :: before => endsInLink linked before
  | _ => false

/-- Whether a character joins a cluster with the given bonds, of which the last comes first. -/
def joins (cluster : List Bond) (next : Bond) : Bool :=
  match cluster, next with
  | [], _ => false
  | .carriageReturn :: _, .lineFeed => true
  | .carriageReturn :: _, _ | .lineFeed :: _, _ | .control :: _, _ => false
  | _, .carriageReturn | _, .lineFeed | _, .control => false
  | .leading :: _, .leading | .leading :: _, .vowel => true
  | .leading :: _, .openSyllable | .leading :: _, .closedSyllable => true
  | .openSyllable :: _, .vowel | .openSyllable :: _, .trailing => true
  | .vowel :: _, .vowel | .vowel :: _, .trailing => true
  | .closedSyllable :: _, .trailing | .trailing :: _, .trailing => true
  | _, .extend | _, .nonJoiner | _, .joiner | _, .linker | _, .spacingMark => true
  | .prepend :: _, _ => true
  | .joiner :: before, .pictographic => endsInPicture before
  | cluster, .regional => endsInHalfFlag cluster
  | cluster, .consonant => endsInLink false cluster
  | _, _ => false

end Bond

/-- The clusters of a text behind an open cluster, whose characters and bonds are given with the
last one first. -/
def clustersAfter (chars : List Char) (bonds : List Bond) : List Char → List (List Char)
  | [] => [chars.reverse]
  | c :: cs =>
    if Bond.joins bonds (.of c) then clustersAfter (c :: chars) (.of c :: bonds) cs
    else chars.reverse :: clustersAfter [c] [.of c] cs

/-- The clusters of a text. -/
def clusters : List Char → List (List Char)
  | [] => []
  | c :: cs => clustersAfter [c] [.of c] cs

theorem flatten_clustersAfter (chars : List Char) (bonds : List Bond) (cs : List Char) :
    (clustersAfter chars bonds cs).flatten = chars.reverse ++ cs := by
  induction cs generalizing chars bonds with
  | nil => simp [clustersAfter]
  | cons c cs ih =>
    unfold clustersAfter
    split
    · rw [ih]; simp
    · simp [ih]

/-- The division loses nothing. -/
theorem flatten_clusters (cs : List Char) : (clusters cs).flatten = cs := by
  cases cs with
  | nil => rfl
  | cons c cs => simp [clusters, flatten_clustersAfter]

example : (clusters "e\u0301🇩🇰🇸🇪👨‍👩‍👧!".toList).map List.length = [2, 2, 2, 5, 1] := by
  decide +kernel

end Sprog.Text
