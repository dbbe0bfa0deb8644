import Mathlib.Data.List.Basic
import Mathlib.Data.List.Induction
import Sprog.Proofs.Munch
import Sprog.Proofs.Seam
import Sprog.Text.Blank

/-!
# White space at the end of a source text

No token ends with white space. So a white space character at the end of a source text is a segment
of its own, or belongs to a comment or to a text that was left open. Where the source text has no
fault it is one that is skipped, and so the program is the same without it.

* `Segment.Fits.comment_or_open`: the longer segments that white space may end.
* `Segment.trailing_divide`: the division of a text with one more white space character.
* `ofSource_trimEnd`: white space at the end of a program does not count.
-/
namespace Sprog

/-! ## White space characters -/

namespace Text

theorem Ranges.exists_of_has {rs : Ranges} {n : Nat} (h : rs.has n = true) :
    ∃ r ∈ rs, r.1 ≤ n ∧ n ≤ r.2 := by
  induction rs with
  | nil => cases h
  | cons r rs ih =>
    unfold Ranges.has at h
    split at h
    · cases h
    · rename_i hfirst
      rcases Bool.or_eq_true_iff.1 h with hlast | hrest
      · exact ⟨r, List.mem_cons_self, Nat.le_of_not_lt hfirst, of_decide_eq_true hlast⟩
      · obtain ⟨r', hmem, hin⟩ := ih hrest
        exact ⟨r', List.mem_cons_of_mem _ hmem, hin⟩

/-- The white space characters. -/
def blanks : List Char :=
  blankRanges.flatMap fun r => (List.range' r.1 (r.2 + 1 - r.1)).map Char.ofNat

theorem mem_blanks {c : Char} (h : isBlank c = true) : c ∈ blanks := by
  obtain ⟨r, hr, hfirst, hlast⟩ := Ranges.exists_of_has h
  refine List.mem_flatMap.2 ⟨r, hr, List.mem_map.2 ⟨c.toNat, ?_, Char.ofNat_toNat c⟩⟩
  rw [List.mem_range'_1]
  omega

theorem not_isNameChar_of_isBlank {c : Char} (h : isBlank c = true) : isNameChar c = false := by
  have hall : ∀ c ∈ blanks, isNameChar c = false := Segment.forall_mem_of_all (by decide +kernel)
  exact hall c (mem_blanks h)

theorem not_isDigit_of_isBlank {c : Char} (h : isBlank c = true) : c.isDigit = false :=
  (Bool.or_eq_false_iff.1 (not_isNameChar_of_isBlank h)).2

end Text

open Text

namespace Segment

/-! ## Segments that end with white space -/

theorem IsName.last {text : List Char} (h : IsName text) {w : Char} (hw : w ∈ text) :
    isNameChar w = true := by
  cases text with
  | nil => cases hw
  | cons c cs =>
    rcases List.mem_cons.1 hw with rfl | hw
    · exact Bool.or_eq_true_iff.2 (.inl h.1)
    · exact h.2 w hw

/-- No token ends with white space. -/
theorem Regular.last_of_token {s : Segment} (hs : Regular s) {kind : Kind}
    {literal : Option Literal} (hrole : s.role = .token kind literal) {text : List Char} {w : Char}
    (htext : s.text = text ++ [w]) : isBlank w = false := by
  by_contra hblank
  have hw : isBlank w = true := by simpa using hblank
  have hname := not_isNameChar_of_isBlank hw
  have hdigit := not_isDigit_of_isBlank hw
  have hmem : w ∈ s.text := by simp [htext]
  have hlast : w ∈ s.text.getLast? := by simp [htext]
  cases hs with
  | blank | newline | comment | unterminated => cases hrole
  | sign hsign =>
    have hall : (signs.all fun p => p.1.getLast?.all (!isBlank ·)) = true := by decide
    have hplain := List.all_eq_true.1 hall _ hsign
    simp [Option.mem_def.1 hlast, hw] at hplain
  | string =>
    obtain rfl : '"' = w := by simpa [List.getLast?_cons] using hlast
    exact absurd hw (by decide)
  | integer hwhole => exact absurd (hwhole.2 w hmem) (by simp [hdigit])
  | @decimal whole fraction _ _ hfraction =>
    obtain ⟨before, last, rfl⟩ := (List.eq_nil_or_concat' fraction).resolve_left hfraction.1
    obtain rfl : last = w := by simpa [List.getLast?_append, List.getLast?_cons] using hlast
    exact absurd (hfraction.2 last (by simp)) (by simp [hdigit])
  | keyword h | identifier h => exact absurd (h.last hmem) (by simp [hname])

/-- White space ends no longer segment but a comment and a text that is left open, and these are
comments and open texts without it. -/
theorem Fits.comment_or_open {w : Char} (hw : isBlank w = true) {s : Segment} (hs : Fits s)
    {text : List Char} (htext : s.text = text ++ [w]) (hne : text ≠ []) :
    (s.role = .comment ∨ s.role = .unterminated) ∧ Fits ⟨text, s.role⟩ := by
  have hmany : s.text.length ≠ 1 := by simp [htext, hne]
  cases hs with
  | unexpected => exact absurd rfl hmany
  | @regular s hs =>
    have htoken : ∀ kind literal, s.role ≠ .token kind literal := by
      intro kind literal hrole
      simp [hs.last_of_token hrole htext] at hw
    cases hs with
    | blank => exact absurd rfl hmany
    | newline => exact absurd rfl hmany
    | @comment body hbody =>
      rcases List.eq_nil_or_concat' body with rfl | ⟨before, last, rfl⟩
      · have hslashes : ['/'] ++ ['/'] = text ++ [w] := htext
        obtain ⟨-, rfl⟩ := List.append_singleton_inj.1 hslashes
        exact absurd hw (by decide)
      · obtain ⟨rfl, rfl⟩ := List.append_singleton_inj.1
          (show ('/' :: '/' :: before) ++ [last] = text ++ [w] from htext)
        exact ⟨.inl rfl, .regular (.comment fun hmem => hbody (List.mem_append_left _ hmem))⟩
    | @unterminated body hbody =>
      rcases List.eq_nil_or_concat' body with rfl | ⟨before, last, rfl⟩
      · exact absurd rfl hmany
      · obtain ⟨rfl, rfl⟩ := List.append_singleton_inj.1
          (show ('"' :: before) ++ [last] = text ++ [w] from htext)
        exact ⟨.inr rfl, .regular (.unterminated fun hmem => hbody (List.mem_append_left _ hmem))⟩
    | sign | string | integer | decimal | keyword | identifier => exact absurd rfl (htoken _ _)

/-- Two segments with the same text that both fit are the same. -/
theorem Fits.role_eq {s s' : Segment} (hs : Fits s) (hs' : Fits s') (h : s.text = s'.text) :
    s.role = s'.role := by
  obtain ⟨c, cs, hc⟩ := List.exists_cons_of_ne_nil hs.text_ne_nil
  rw [← role_next_of_fits hs hc, ← role_next_of_fits hs' (h ▸ hc)]

/-- A text that is one segment. -/
theorem Fits.division {s : Segment} (hs : Fits s) : Division s.text [s] := by
  have hlongest : Longest s [] := ⟨hs, fun _ _ hp => List.append_nil s.text ▸ hp.length_le⟩
  exact List.append_nil s.text ▸ .cons hlongest .nil

/-- A text that is one segment falls into that segment. -/
theorem Fits.divide_eq {s : Segment} (hs : Fits s) : divide s.text = [s] :=
  (division_iff.1 hs.division).symm

/-- White space by itself. -/
theorem Fits.role_of_isBlank {w : Char} (hw : isBlank w = true) {s : Segment} (hs : Fits s)
    (htext : s.text = [w]) : s.role = .blank ∨ s.role = .newline ∨ s.role = .unexpected w := by
  cases hs with
  | unexpected => exact .inr (.inr (by rw [List.singleton_inj.1 htext]))
  | @regular s hs =>
    have htoken : ∀ kind literal, s.role ≠ .token kind literal := by
      intro kind literal hrole
      simp [hs.last_of_token hrole (show s.text = [] ++ [w] from htext)] at hw
    cases hs with
    | blank => exact .inl rfl
    | newline => exact .inr (.inl rfl)
    | comment => cases htext
    | unterminated =>
      obtain ⟨rfl, -⟩ := List.cons_eq_cons.1 htext
      exact absurd hw (by decide)
    | sign | string | integer | decimal | keyword | identifier => exact absurd rfl (htoken _ _)

theorem text_next_nil (c : Char) : (next c []).1.text = [c] := by
  rcases List.append_eq_singleton_iff.1 (text_append_next c []) with ⟨hnil, -⟩ | ⟨hall, -⟩
  · exact absurd hnil (text_next_ne_nil c [])
  · exact hall

/-! ## One more character -/

/-- How a division changes when the white space character `w` is put behind the text. -/
inductive Trailing (w : Char) : List Segment → List Segment → Prop where
  /-- It is a segment of its own. -/
  | alone : Trailing w [] [(next w []).1]
  /-- It belongs to the last segment. -/
  | joined {text : List Char} {role : Role} : role = .comment ∨ role = .unterminated →
      Trailing w [⟨text, role⟩] [⟨text ++ [w], role⟩]
  | cons {s : Segment} {ss ss' : List Segment} : Trailing w ss ss' → Trailing w (s :: ss) (s :: ss')

theorem exists_trailing {w : Char} (hw : isBlank w = true) {cs : List Char}
    {ss : List Segment} (h : Division cs ss) :
    ∃ ss', Division (cs ++ [w]) ss' ∧ Trailing w ss ss' := by
  induction h with
  | nil =>
    have hdivision := (fits_next w []).division
    rw [text_next_nil] at hdivision
    exact ⟨_, hdivision, .alone⟩
  | @cons s rest ss hs hrest ih =>
    by_cases hall : ∃ s', Fits s' ∧ s'.text = s.text ++ rest ++ [w]
    · -- the whole text with the character is one segment, and so it was without it
      obtain ⟨s', hs', htext⟩ := hall
      have hne : s.text ++ rest ≠ [] := List.append_ne_nil_of_left_ne_nil hs.1.text_ne_nil _
      obtain ⟨hrole, hfits⟩ := hs'.comment_or_open hw htext hne
      have hle := hs.2 _ hfits List.prefix_rfl
      obtain rfl : rest = [] := List.length_eq_zero_iff.1 (by rw [List.length_append] at hle; omega)
      obtain rfl : ss = [] := by rw [division_iff.1 hrest, divide]
      rw [List.append_nil] at hfits htext ⊢
      have hsame := hs.1.role_eq hfits rfl
      refine ⟨[s'], htext ▸ hs'.division, ?_⟩
      rcases s with ⟨text, role⟩
      rcases s' with ⟨text', role'⟩
      cases hsame
      cases htext
      exact .joined hrole
    · -- otherwise no longer segment fits in the first place than before
      have hlongest : Longest s (rest ++ [w]) := by
        refine ⟨hs.1, fun s' hs' hp => ?_⟩
        rw [← List.append_assoc] at hp
        rcases List.prefix_concat_iff.1 hp with hwhole | hshorter
        · exact absurd ⟨s', hs', hwhole⟩ hall
        · exact hs.2 s' hs' hshorter
      obtain ⟨ss', hdivision, htrailing⟩ := ih
      exact ⟨s :: ss', List.append_assoc .. ▸ .cons hlongest hdivision, .cons htrailing⟩

theorem trailing_divide {w : Char} (hw : isBlank w = true) (cs : List Char) :
    Trailing w (divide cs) (divide (cs ++ [w])) := by
  obtain ⟨ss', hdivision, htrailing⟩ := exists_trailing hw (division_iff.2 rfl)
  exact division_iff.1 hdivision ▸ htrailing

/-- A text without faults has the same tokens without the character, and no faults. -/
theorem Trailing.collect {w : Char} (hw : isBlank w = true) {ss ss' : List Segment}
    (h : Trailing w ss ss') {line : Nat} (hclean : collect fault? line ss' = []) :
    collect fault? line ss = [] ∧ collect token? line ss = collect token? line ss' := by
  induction h generalizing line with
  | alone =>
    rcases (fits_next w []).role_of_isBlank hw (text_next_nil w) with hrole | hrole | hrole
    · simp [Segment.collect, token?, hrole]
    · simp [Segment.collect, token?, hrole]
    · simp [Segment.collect, fault?, hrole] at hclean
  | joined hrole =>
    rcases hrole with rfl | rfl
    · exact ⟨rfl, rfl⟩
    · cases hclean
  | @cons s ss ss' _ ih =>
    obtain ⟨hfirst, hbehind⟩ := List.append_eq_nil_iff.1 hclean
    obtain ⟨hfaults, htokens⟩ := ih hbehind
    refine ⟨List.append_eq_nil_iff.2 ⟨hfirst, hfaults⟩, ?_⟩
    rw [Segment.collect, Segment.collect, htokens]

/-- A character that is skipped brings no fault to a text that has none. -/
theorem Trailing.clean {w : Char} (hw : (next w []).1.role = .blank) {ss ss' : List Segment}
    (h : Trailing w ss ss') {line : Nat} (hclean : Segment.collect fault? line ss = []) :
    Segment.collect fault? line ss' = [] := by
  induction h generalizing line with
  | alone => simp [Segment.collect, fault?, hw]
  | joined hrole =>
    rcases hrole with rfl | rfl
    · rfl
    · cases hclean
  | cons _ ih =>
    obtain ⟨hfirst, hbehind⟩ := List.append_eq_nil_iff.1 hclean
    exact List.append_eq_nil_iff.2 ⟨hfirst, ih hbehind⟩

end Segment

/-! ## Programs -/

open Segment

/-- A source text is a program if none of its segments is a fault and their tokens are one. -/
theorem ofSource_eq_ok_iff_collect {cs : List Char} {ss : List Stmt} :
    Program.ofSource (String.ofList cs) = .ok ss ↔
      Segment.collect fault? 1 (divide cs) = [] ∧
        Grammar.Program ss (Segment.collect token? 1 (divide cs)) := by
  have hends : beforeEnd [Token.eof (1 + cs.count '\n')] = [] := rfl
  rw [ofSource_eq_ok_iff, tokenize_eq, String.toList_ofList,
    beforeEnd_append (kind_collect_ne_eof 1 cs), hends, List.append_nil]

/-- A program that ends with white space is the same program without it. -/
theorem ofSource_of_append_blank {w : Char} (hw : isBlank w = true) {cs : List Char}
    {ss : List Stmt} (h : Program.ofSource (String.ofList (cs ++ [w])) = .ok ss) :
    Program.ofSource (String.ofList cs) = .ok ss := by
  obtain ⟨hclean, hprogram⟩ := ofSource_eq_ok_iff_collect.1 h
  obtain ⟨hfaults, htokens⟩ := (trailing_divide hw cs).collect hw hclean
  exact ofSource_eq_ok_iff_collect.2 ⟨hfaults, htokens ▸ hprogram⟩

/-- A carriage return at the end of a program changes nothing. -/
theorem ofSource_append_return {cs : List Char} {ss : List Stmt}
    (h : Program.ofSource (String.ofList cs) = .ok ss) :
    Program.ofSource (String.ofList (cs ++ ['\r'])) = .ok ss := by
  have hw : isBlank '\r' = true := by decide
  obtain ⟨hclean, hprogram⟩ := ofSource_eq_ok_iff_collect.1 h
  have htrailing := trailing_divide hw cs
  have hfaults := htrailing.clean rfl hclean
  exact ofSource_eq_ok_iff_collect.2 ⟨hfaults, (htrailing.collect hw hfaults).2 ▸ hprogram⟩

theorem trimEnd_append_singleton (cs : List Char) (c : Char) :
    trimEnd (cs ++ [c]) = if isBlank c then trimEnd cs else cs ++ [c] := by
  unfold trimEnd
  rw [List.reverse_append, List.reverse_singleton, List.singleton_append, List.dropWhile_cons]
  split
  · rfl
  · simp

/-- White space at the end of a program does not count. -/
theorem ofSource_trimEnd {cs : List Char} {ss : List Stmt}
    (h : Program.ofSource (String.ofList cs) = .ok ss) :
    Program.ofSource (String.ofList (trimEnd cs)) = .ok ss := by
  induction cs using List.reverseRecOn with
  | nil => exact h
  | append_singleton cs c ih =>
    rw [trimEnd_append_singleton]
    split
    · rename_i hblank
      exact ih (ofSource_of_append_blank hblank h)
    · exact h

end Sprog
