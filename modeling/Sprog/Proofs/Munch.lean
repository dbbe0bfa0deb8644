import Sprog.Proofs.Lines
import Sprog.Proofs.Rounding

/-!
# Maximal munch

What a segment of a source text may be is said here without regard to what stands around it
(`Segment.Fits`): by its text and its role alone, and by the number that its digits denote. A text
is then divided by always taking the longest segment that fits (`Segment.Division`). There is
exactly one such division of every text, `Segment.divide` finds it, and the tokens and the lexical
faults of a source text are its segments in their order. The conversion of a number never fails.

* `Segment.fits_next`, `Segment.length_le_next`: the cut is a segment that fits, and the longest.
* `Segment.role_next_of_fits`: the text of a segment decides its role.
* `Segment.division_iff`: the division is there and is the only one.
* `tokenize_division`: the tokens and faults of a source text.
-/
namespace Sprog

namespace Segment

/-! ## What fits -/

/-- The signs, with the kinds of token that they are. -/
def signs : List (List Char × Kind) := [
  (['('], .leftParen), ([')'], .rightParen), (['{'], .leftBrace), (['}'], .rightBrace),
  ([','], .comma), (['.'], .dot), (['-'], .minus), (['+'], .plus), ([';'], .semicolon),
  (['/'], .slash), (['*'], .star),
  (['!'], .bang), (['!', '='], .bangEqual), (['='], .equal), (['=', '='], .equalEqual),
  (['<'], .less), (['<', '='], .lessEqual), (['>'], .greater), (['>', '='], .greaterEqual)]

/-- At least one digit, and nothing else. -/
def IsDigits (text : List Char) : Prop :=
  text ≠ [] ∧ ∀ c ∈ text, c.isDigit = true

/-- A character that starts a name, and then characters that go on with it. -/
def IsName : List Char → Prop
  | [] => False
  | c :: cs => isNameStart c = true ∧ ∀ d ∈ cs, isNameChar d = true

/-- What a segment may be, apart from a character that fits nowhere. -/
inductive Regular : Segment → Prop where
  | blank {c : Char} : c = ' ' ∨ c = '\r' ∨ c = '\t' → Regular ⟨[c], .blank⟩
  | newline : Regular ⟨['\n'], .newline⟩
  | comment {body : List Char} : '\n' ∉ body → Regular ⟨'/' :: '/' :: body, .comment⟩
  | sign {text : List Char} {kind : Kind} : (text, kind) ∈ signs →
      Regular ⟨text, .token kind none⟩
  | string {body : List Char} : '"' ∉ body →
      Regular ⟨'"' :: body ++ ['"'], .token .string (some (.text (String.ofList body)))⟩
  | unterminated {body : List Char} : '"' ∉ body → Regular ⟨'"' :: body, .unterminated⟩
  | integer {whole : List Char} {x : Float} : IsDigits whole → Number.Denotes whole [] x →
      Regular ⟨whole, .token .number (some (.number x))⟩
  | decimal {whole fraction : List Char} {x : Float} : IsDigits whole → IsDigits fraction →
      Number.Denotes whole fraction x →
      Regular ⟨whole ++ '.' :: fraction, .token .number (some (.number x))⟩
  | keyword {text : List Char} {kind : Kind} : IsName text →
      (String.ofList text, kind) ∈ keywords → Regular ⟨text, .token kind none⟩
  | identifier {text : List Char} : IsName text →
      (∀ kind, (String.ofList text, kind) ∉ keywords) → Regular ⟨text, .token .identifier none⟩

/-- What a segment may be. A character is unexpected if nothing else starts with it. -/
inductive Fits : Segment → Prop where
  | regular {s : Segment} : Regular s → Fits s
  | unexpected {c : Char} : (∀ s, Regular s → s.text.head? ≠ some c) → Fits ⟨[c], .unexpected c⟩

/-- In front of `rest` the segment fits, and none that fits reaches further. -/
def Longest (s : Segment) (rest : List Char) : Prop :=
  Fits s ∧ ∀ s', Fits s' → s'.text <+: s.text ++ rest → s'.text.length ≤ s.text.length

/-- The text falls into these segments, each of which is the longest in its place. -/
inductive Division : List Char → List Segment → Prop where
  | nil : Division [] []
  | cons {s : Segment} {rest : List Char} {ss : List Segment} : Longest s rest →
      Division rest ss → Division (s.text ++ rest) (s :: ss)

/-! ## The cut, by the first character -/

/-- The characters that decide by themselves what starts with them. -/
def special : List Char :=
  ['(', ')', '{', '}', ',', '.', '-', '+', ';', '*', '!', '=', '<', '>', '/', ' ', '\r', '\t',
    '\n', '"']

/-- A check of all members of a list, for `decide`: it goes through the members and not through all
characters. -/
theorem forall_mem_of_all {l : List Char} {P : Char → Prop} [DecidablePred P]
    (h : (l.all fun c => decide (P c)) = true) : ∀ c ∈ l, P c := by
  simpa using h

theorem ofSign?_eq_none {c : Char} (hc : c ∉ special) : Kind.ofSign? c = none := by
  unfold Kind.ofSign?
  split <;> simp [special] at hc ⊢

theorem ofOperator?_eq_none {c : Char} (hc : c ∉ special) : Kind.ofOperator? c = none := by
  unfold Kind.ofOperator?
  split <;> simp [special] at hc ⊢

/-- What starts with none of the special characters. -/
theorem next_of_not_special {c : Char} (hc : c ∉ special) (cs : List Char) :
    next c cs = if c.isDigit then number c cs
      else if isNameStart c then word c cs
      else (⟨[c], .unexpected c⟩, cs) := by
  unfold next
  rw [ofSign?_eq_none hc, ofOperator?_eq_none hc]
  simp only [special, List.mem_cons, not_or] at hc
  simp [hc]

theorem not_special_of_isDigit {c : Char} (h : c.isDigit = true) : c ∉ special := by
  have hall : ∀ c ∈ special, c.isDigit = false := forall_mem_of_all (by decide)
  intro hc
  simp [hall c hc] at h

theorem not_special_of_isNameStart {c : Char} (h : isNameStart c = true) : c ∉ special := by
  have hall : ∀ c ∈ special, isNameStart c = false := forall_mem_of_all (by decide)
  intro hc
  simp [hall c hc] at h

/-- Every letter comes after the digits. -/
theorem not_isDigit_of_isNameStart {c : Char} (h : isNameStart c = true) : c.isDigit = false := by
  by_contra hdigit
  have hlt : c.toNat < 0x41 := by
    simp [Char.isDigit, UInt32.le_iff_toNat_le] at hdigit
    omega
  have hletter : Text.isAlphabetic c = false := by
    unfold Text.isAlphabetic Text.alphabeticRanges Text.Ranges.has
    exact if_pos hlt
  have hline : c = '_' := by simpa [isNameStart, hletter] using h
  simp [hline] at hlt

theorem next_of_isDigit {c : Char} (h : c.isDigit = true) (cs : List Char) :
    next c cs = number c cs := by
  rw [next_of_not_special (not_special_of_isDigit h), if_pos h]

theorem next_of_isNameStart {c : Char} (h : isNameStart c = true) (cs : List Char) :
    next c cs = word c cs := by
  rw [next_of_not_special (not_special_of_isNameStart h),
    if_neg (by simp [not_isDigit_of_isNameStart h]), if_pos h]

theorem next_of_ofSign? {c : Char} {kind : Kind} (h : Kind.ofSign? c = some kind)
    (cs : List Char) : next c cs = (⟨[c], .token kind none⟩, cs) := by
  simp only [next, h]

theorem next_of_ofOperator? {c : Char} {kinds : Kind × Kind} (h : Kind.ofOperator? c = some kinds)
    (cs : List Char) : next c cs = operator c kinds.1 kinds.2 cs := by
  have hs : Kind.ofSign? c = none := by
    unfold Kind.ofOperator? at h
    split at h <;> cases h <;> rfl
  simp only [next, hs, h]

theorem special_cases {c : Char} (hc : c ∈ special) :
    (∃ kind, Kind.ofSign? c = some kind) ∨ (∃ kinds, Kind.ofOperator? c = some kinds) ∨ c = '/' ∨
      (c = ' ' ∨ c = '\r' ∨ c = '\t') ∨ c = '\n' ∨ c = '"' := by
  have hall : ∀ c ∈ special, (Kind.ofSign? c).isSome ∨ (Kind.ofOperator? c).isSome ∨ c = '/' ∨
      (c = ' ' ∨ c = '\r' ∨ c = '\t') ∨ c = '\n' ∨ c = '"' := forall_mem_of_all (by decide)
  simpa only [Option.isSome_iff_exists] using hall c hc

/-! ## The cut fits -/

theorem mem_signs_of_ofSign? {c : Char} {kind : Kind} (h : Kind.ofSign? c = some kind) :
    ([c], kind) ∈ signs := by
  unfold Kind.ofSign? at h
  split at h <;> cases h <;> decide

theorem mem_signs_of_ofOperator? {c : Char} {short long : Kind}
    (h : Kind.ofOperator? c = some (short, long)) :
    ([c], short) ∈ signs ∧ ([c, '='], long) ∈ signs := by
  unfold Kind.ofOperator? at h
  split at h <;> cases h <;> decide

theorem not_mem_takeWhile_ne (c : Char) (cs : List Char) : c ∉ cs.takeWhile (· != c) := by
  intro h
  simpa using List.mem_takeWhile_imp h

theorem isDigits_cons {c : Char} (h : c.isDigit = true) (cs : List Char) :
    IsDigits (c :: cs.takeWhile Char.isDigit) := by
  refine ⟨by simp, ?_⟩
  rw [List.forall_mem_cons]
  exact ⟨h, fun _ hd => List.mem_takeWhile_imp hd⟩

theorem isName_cons {c : Char} (h : isNameStart c = true) (cs : List Char) :
    IsName (c :: cs.takeWhile isNameChar) :=
  ⟨h, fun _ hd => List.mem_takeWhile_imp hd⟩

theorem mem_keywords_of_lookup {word : String} {kind : Kind}
    (h : keywords.lookup word = some kind) : (word, kind) ∈ keywords := by
  obtain ⟨before, behind, hsplit, -⟩ := List.lookup_eq_some_iff.1 h
  rw [hsplit]
  simp

/-- A name is a keyword or an identifier. -/
theorem regular_name {text : List Char} (h : IsName text) :
    Regular ⟨text, .token (.ofWord (String.ofList text)) none⟩ := by
  unfold Kind.ofWord
  cases hk : keywords.lookup (String.ofList text) with
  | none =>
    refine .identifier h fun kind hmem => ?_
    have := List.lookup_eq_none_iff.1 hk _ hmem
    simp at this
  | some kind => exact .keyword h (mem_keywords_of_lookup hk)

theorem regular_slash (cs : List Char) : Regular (slash cs).1 := by
  unfold slash
  split
  · exact .comment (not_mem_takeWhile_ne '\n' _)
  · exact .sign (by decide)

theorem regular_operator {c : Char} {short long : Kind}
    (h : Kind.ofOperator? c = some (short, long))
    (cs : List Char) : Regular (operator c short long cs).1 := by
  obtain ⟨hshort, hlong⟩ := mem_signs_of_ofOperator? h
  unfold operator
  split
  · exact .sign hlong
  · exact .sign hshort

theorem regular_quoted (cs : List Char) : Regular (quoted cs).1 := by
  have hbody := not_mem_takeWhile_ne '"' cs
  unfold quoted
  dsimp only
  split
  · exact .unterminated hbody
  · exact .string hbody

theorem ofText?_integer {whole : List Char} (h : IsDigits whole) :
    Number.ofText? whole = some (Number.ofDigits whole []) := by
  have htake := List.takeWhile_eq_self_iff.2 h.2
  have hdrop := List.dropWhile_eq_nil_iff.2 h.2
  simp [Number.ofText?, htake, hdrop, h.1]

theorem ofText?_decimal {whole fraction : List Char} (hwhole : IsDigits whole)
    (hfraction : IsDigits fraction) :
    Number.ofText? (whole ++ '.' :: fraction) = some (Number.ofDigits whole fraction) := by
  have htake : (whole ++ '.' :: fraction).takeWhile Char.isDigit = whole := by
    rw [List.takeWhile_append_of_pos hwhole.2]
    simp
  have hdrop : (whole ++ '.' :: fraction).dropWhile Char.isDigit = '.' :: fraction := by
    rw [List.dropWhile_append_of_pos hwhole.2]
    simp
  have hall : fraction.all Char.isDigit = true := List.all_eq_true.2 hfraction.2
  simp [Number.ofText?, htake, hdrop, hall, hwhole.1]

/-- The conversion of a number does not fail, and what it gives is what the digits denote. -/
theorem exists_number {c : Char} (h : c.isDigit = true) (cs : List Char) : ∃ x,
    Number.ofText? (c :: (numeral cs).1) = some x ∧
      Regular ⟨c :: (numeral cs).1, .token .number (some (.number x))⟩ := by
  have hwhole := isDigits_cons h cs
  by_cases hpoint : ∃ d rest, cs.dropWhile Char.isDigit = '.' :: d :: rest ∧ d.isDigit = true
  · obtain ⟨d, rest, hrest, hd⟩ := hpoint
    have hfraction := isDigits_cons hd rest
    have htext : c :: (numeral cs).1 =
        (c :: cs.takeWhile Char.isDigit) ++ '.' :: d :: rest.takeWhile Char.isDigit := by
      simp only [numeral, hrest, hd, if_true, List.cons_append]
    rw [htext]
    exact ⟨_, ofText?_decimal hwhole hfraction,
      .decimal hwhole hfraction (Number.denotes_iff.2 rfl)⟩
  · have hdigits := numeral_whole fun d rest hrest =>
      Bool.eq_false_iff.2 fun hd => hpoint ⟨d, rest, hrest, hd⟩
    rw [hdigits]
    exact ⟨_, ofText?_integer hwhole, .integer hwhole (Number.denotes_iff.2 rfl)⟩

theorem number_eq {c : Char} {cs : List Char} {x : Float}
    (h : Number.ofText? (c :: (numeral cs).1) = some x) :
    number c cs = (⟨c :: (numeral cs).1, .token .number (some (.number x))⟩, (numeral cs).2) := by
  simp only [number, h]

theorem regular_number {c : Char} (h : c.isDigit = true) (cs : List Char) :
    Regular (number c cs).1 := by
  obtain ⟨x, htext, hregular⟩ := exists_number h cs
  rw [number_eq htext]
  exact hregular

/-- Something regular starts with these characters and no others. -/
theorem exists_regular_iff {c : Char} : (∃ s, Regular s ∧ s.text.head? = some c) ↔
    c ∈ special ∨ c.isDigit = true ∨ isNameStart c = true := by
  constructor
  · rintro ⟨s, hs, hhead⟩
    cases hs with
    | blank hc =>
      cases hhead
      rcases hc with rfl | rfl | rfl <;> simp [special]
    | newline => cases hhead; simp [special]
    | comment => cases hhead; simp [special]
    | sign hmem =>
      have hall : ∀ p ∈ signs, p.1.head?.all (· ∈ special) = true := by decide
      have hfirst := hall _ hmem
      rw [hhead] at hfirst
      exact .inl (of_decide_eq_true hfirst)
    | string => cases hhead; simp [special]
    | unterminated => cases hhead; simp [special]
    | integer hwhole => exact .inr (.inl (hwhole.2 c (List.mem_of_mem_head? hhead)))
    | decimal hwhole =>
      obtain ⟨d, ds, rfl⟩ := List.exists_cons_of_ne_nil hwhole.1
      cases hhead
      exact .inr (.inl (hwhole.2 c (by simp)))
    | @keyword text _ hname | @identifier text hname =>
      cases text with
      | nil => cases hhead
      | cons d ds => cases hhead; exact .inr (.inr hname.1)
  · rintro (hc | hc | hc)
    · have hall : ∀ c ∈ special, signs.any (fun p => p.1 = [c]) ∨
          (c = ' ' ∨ c = '\r' ∨ c = '\t') ∨ c = '\n' ∨ c = '"' := forall_mem_of_all (by decide)
      rcases hall c hc with hsign | hblank | rfl | rfl
      · obtain ⟨⟨text, kind⟩, hmem, htext⟩ := List.any_eq_true.1 hsign
        obtain rfl : text = [c] := by simpa using htext
        exact ⟨_, .sign hmem, rfl⟩
      · exact ⟨_, .blank hblank, rfl⟩
      · exact ⟨_, .newline, rfl⟩
      · exact ⟨_, .unterminated List.not_mem_nil, rfl⟩
    · exact ⟨_, .integer (isDigits_cons hc []) (Number.denotes_iff.2 rfl), rfl⟩
    · exact ⟨_, regular_name (isName_cons hc []), rfl⟩

/-- The cut is a segment that fits. -/
theorem fits_next (c : Char) (cs : List Char) : Fits (next c cs).1 := by
  by_cases hc : c ∈ special
  · refine .regular ?_
    rcases special_cases hc with ⟨kind, hs⟩ | ⟨kinds, ho⟩ | rfl | hblank | rfl | rfl
    · rw [next_of_ofSign? hs]
      exact .sign (mem_signs_of_ofSign? hs)
    · rw [next_of_ofOperator? ho]
      exact regular_operator ho cs
    · exact regular_slash cs
    · rcases hblank with rfl | rfl | rfl <;> exact .blank (by simp)
    · exact .newline
    · exact regular_quoted cs
  · rw [next_of_not_special hc]
    split
    · rename_i hd
      exact .regular (regular_number hd cs)
    split
    · rename_i hn
      exact .regular (regular_name (isName_cons hn cs))
    · rename_i hd hn
      refine .unexpected fun s hs hhead => ?_
      rcases exists_regular_iff.1 ⟨s, hs, hhead⟩ with h | h | h
      · exact hc h
      · exact hd h
      · exact hn h

/-! ## No segment that fits is longer -/

theorem ne_of_not_mem {c : Char} {body : List Char} (h : c ∉ body) :
    ∀ d ∈ body, (d != c) = true := by
  intro d hd
  have hne : d ≠ c := fun heq => h (heq ▸ hd)
  simpa using hne

theorem length_le_takeWhile_append {p : Char → Bool} {body : List Char}
    (h : ∀ c ∈ body, p c = true) (rest : List Char) :
    body.length ≤ ((body ++ rest).takeWhile p).length := by
  rw [List.takeWhile_append_of_pos h, List.length_append]
  omega

/-- A text that is closed. -/
theorem quoted_closed {body : List Char} (h : '"' ∉ body) (rest : List Char) :
    quoted (body ++ '"' :: rest) =
      (⟨'"' :: body ++ ['"'], .token .string (some (.text (String.ofList body)))⟩, rest) := by
  have hbody := ne_of_not_mem h
  have htake : (body ++ '"' :: rest).takeWhile (· != '"') = body := by
    rw [List.takeWhile_append_of_pos hbody]
    simp
  have hdrop : (body ++ '"' :: rest).dropWhile (· != '"') = '"' :: rest := by
    rw [List.dropWhile_append_of_pos hbody]
    simp
  simp only [quoted, htake, hdrop]

/-- A text that is left open goes on to the end. -/
theorem quoted_open {body : List Char} (h : '"' ∉ body) :
    quoted body = (⟨'"' :: body, .unterminated⟩, []) := by
  have htake := List.takeWhile_eq_self_iff.2 (ne_of_not_mem h)
  have hdrop := List.dropWhile_eq_nil_iff.2 (ne_of_not_mem h)
  simp only [quoted, htake, hdrop]

theorem length_takeWhile_lt_quoted (cs : List Char) :
    (cs.takeWhile (· != '"')).length < (quoted cs).1.text.length := by
  unfold quoted
  dsimp only
  split
  · simp
  · simp only [List.length_append, List.length_cons]
    omega

/-- A number with a point in it. -/
theorem numeral_point {whole : List Char} (hwhole : ∀ c ∈ whole, c.isDigit = true) {d : Char}
    (hd : d.isDigit = true) (rest : List Char) :
    numeral (whole ++ '.' :: d :: rest) =
      (whole ++ '.' :: d :: rest.takeWhile Char.isDigit, rest.dropWhile Char.isDigit) := by
  have htake : (whole ++ '.' :: d :: rest).takeWhile Char.isDigit = whole := by
    rw [List.takeWhile_append_of_pos hwhole]
    simp
  have hdrop : (whole ++ '.' :: d :: rest).dropWhile Char.isDigit = '.' :: d :: rest := by
    rw [List.dropWhile_append_of_pos hwhole]
    simp
  simp only [numeral, htake, hdrop, hd, if_true]

theorem length_takeWhile_le_numeral (cs : List Char) :
    (cs.takeWhile Char.isDigit).length ≤ (numeral cs).1.length := by
  unfold numeral
  dsimp only
  split
  · split
    · simp
    · exact Nat.le_refl _
  · exact Nat.le_refl _

theorem length_le_next_name {text rest : List Char} (h : IsName text) {c : Char} {cs : List Char}
    (hrest : text ++ rest = c :: cs) : text.length ≤ (next c cs).1.text.length := by
  cases text with
  | nil => exact h.elim
  | cons d ds =>
    cases hrest
    have := length_le_takeWhile_append h.2 rest
    rw [next_of_isNameStart h.1]
    simpa [word] using this

/-- No segment that fits reaches further than the cut. -/
theorem length_le_next {s : Segment} (hs : Fits s) {c : Char} {cs : List Char}
    (hp : s.text <+: c :: cs) : s.text.length ≤ (next c cs).1.text.length := by
  have hpos := List.length_pos_iff.2 (text_next_ne_nil c cs)
  obtain ⟨rest, hrest⟩ := hp
  cases hs with
  | unexpected => exact hpos
  | regular hs =>
    cases hs with
    | blank => exact hpos
    | newline => exact hpos
    | @comment body hbody =>
      cases hrest
      have := length_le_takeWhile_append (ne_of_not_mem hbody) rest
      show body.length + 2 ≤ (((body ++ rest).takeWhile (· != '\n')).length + 1) + 1
      omega
    | sign hmem =>
      have hall : ∀ p ∈ signs, p.1.length ≤ 1 ∨
          p.1 ∈ [['!', '='], ['=', '='], ['<', '='], ['>', '=']] := by decide
      rcases hall _ hmem with hone | htwo
      · exact hone.trans hpos
      · simp only [List.mem_cons, List.not_mem_nil, or_false] at htwo
        rcases htwo with rfl | rfl | rfl | rfl <;> cases hrest <;> exact Nat.le_refl 2
    | @string body hbody =>
      obtain ⟨rfl, rfl⟩ : '"' = c ∧ body ++ '"' :: rest = cs := by simpa using hrest
      show _ ≤ (quoted (body ++ '"' :: rest)).1.text.length
      rw [quoted_closed hbody]
    | @unterminated body hbody =>
      cases hrest
      have := length_le_takeWhile_append (ne_of_not_mem hbody) rest
      have := length_takeWhile_lt_quoted (body ++ rest)
      show body.length + 1 ≤ (quoted (body ++ rest)).1.text.length
      omega
    | integer hwhole =>
      obtain ⟨d, ds, rfl⟩ := List.exists_cons_of_ne_nil hwhole.1
      obtain ⟨hd, hds⟩ := List.forall_mem_cons.1 hwhole.2
      obtain ⟨rfl, rfl⟩ : d = c ∧ ds ++ rest = cs := by simpa using hrest
      have := length_le_takeWhile_append hds rest
      have := length_takeWhile_le_numeral (ds ++ rest)
      rw [next_of_isDigit hd, text_number]
      show ds.length + 1 ≤ (numeral (ds ++ rest)).1.length + 1
      omega
    | decimal hwhole hfraction =>
      obtain ⟨d, ds, rfl⟩ := List.exists_cons_of_ne_nil hwhole.1
      obtain ⟨hd, hds⟩ := List.forall_mem_cons.1 hwhole.2
      obtain ⟨f, fs, rfl⟩ := List.exists_cons_of_ne_nil hfraction.1
      obtain ⟨hf, hfs⟩ := List.forall_mem_cons.1 hfraction.2
      obtain ⟨rfl, rfl⟩ : d = c ∧ ds ++ '.' :: f :: (fs ++ rest) = cs := by simpa using hrest
      have := length_le_takeWhile_append hfs rest
      rw [next_of_isDigit hd, text_number, numeral_point hds hf]
      simpa using this
    | keyword hname => exact length_le_next_name hname hrest
    | identifier hname => exact length_le_next_name hname hrest

/-! ## The text decides the role -/

theorem role_next_name {text : List Char} (h : IsName text) {c : Char} {cs : List Char}
    (htext : text = c :: cs) :
    (next c cs).1.role = .token (.ofWord (String.ofList text)) none := by
  subst htext
  rw [next_of_isNameStart h.1, word, List.takeWhile_eq_self_iff.2 h.2]

/-- A segment that fits, taken as a whole text, is cut off as it is. -/
theorem role_next_of_fits {s : Segment} (hs : Fits s) {c : Char} {cs : List Char}
    (htext : s.text = c :: cs) : (next c cs).1.role = s.role := by
  cases hs with
  | @unexpected d hd =>
    cases htext
    have hnone : ¬ (c ∈ special ∨ c.isDigit = true ∨ isNameStart c = true) := by
      rw [← exists_regular_iff]
      rintro ⟨s, hs, hhead⟩
      exact hd s hs hhead
    simp only [not_or] at hnone
    rw [next_of_not_special hnone.1, if_neg hnone.2.1, if_neg hnone.2.2]
  | regular hs =>
    cases hs with
    | blank hc =>
      cases htext
      rcases hc with rfl | rfl | rfl <;> rfl
    | newline => cases htext; rfl
    | comment => cases htext; rfl
    | sign hmem =>
      have hall : ∀ p ∈ signs,
          p.1.head?.all (fun c => (next c p.1.tail).1.role = .token p.2 none) = true := by decide
      cases htext
      exact of_decide_eq_true (hall _ hmem)
    | @string body hbody =>
      obtain ⟨rfl, rfl⟩ : '"' = c ∧ body ++ ['"'] = cs := by simpa using htext
      show (quoted _).1.role = _
      rw [quoted_closed hbody]
    | unterminated hbody =>
      cases htext
      show (quoted _).1.role = _
      rw [quoted_open hbody]
    | integer hwhole hx =>
      cases htext
      obtain ⟨hc, hcs⟩ := List.forall_mem_cons.1 hwhole.2
      have htake := List.takeWhile_eq_self_iff.2 hcs
      have hdrop := List.dropWhile_eq_nil_iff.2 hcs
      have hdigits : (numeral cs).1 = cs := by rw [numeral_whole (by simp [hdrop]), htake]
      have hread := ofText?_integer hwhole
      rw [← Number.denotes_iff.1 hx] at hread
      rw [next_of_isDigit hc, number_eq (hdigits.symm ▸ hread)]
    | decimal hwhole hfraction hx =>
      obtain ⟨d, ds, rfl⟩ := List.exists_cons_of_ne_nil hwhole.1
      obtain ⟨hd, hds⟩ := List.forall_mem_cons.1 hwhole.2
      obtain ⟨f, fs, rfl⟩ := List.exists_cons_of_ne_nil hfraction.1
      obtain ⟨hf, hfs⟩ := List.forall_mem_cons.1 hfraction.2
      obtain ⟨rfl, rfl⟩ : d = c ∧ ds ++ '.' :: f :: fs = cs := by simpa using htext
      have hdigits : (numeral (ds ++ '.' :: f :: fs)).1 = ds ++ '.' :: f :: fs := by
        rw [numeral_point hds hf, List.takeWhile_eq_self_iff.2 hfs]
      have hread := ofText?_decimal hwhole hfraction
      rw [← Number.denotes_iff.1 hx, List.cons_append, ← hdigits] at hread
      rw [next_of_isDigit hd, number_eq hread]
    | keyword hname hmem =>
      have hall : ∀ p ∈ keywords, Kind.ofWord p.1 = p.2 := by decide
      rw [role_next_name hname htext, hall _ hmem]
    | @identifier text hname hmem =>
      have hnone : keywords.lookup (String.ofList text) = none := by
        rw [Option.eq_none_iff_forall_ne_some]
        exact fun kind hk => hmem kind (mem_keywords_of_lookup hk)
      rw [role_next_name hname htext, Kind.ofWord, hnone]
      rfl

/-! ## The division -/

theorem Fits.text_ne_nil {s : Segment} (h : Fits s) : s.text ≠ [] := by
  cases h with
  | unexpected => simp
  | regular h =>
    cases h with
    | sign hmem =>
      have hall : ∀ p ∈ signs, p.1 ≠ [] := by decide
      exact hall _ hmem
    | integer hwhole => exact hwhole.1
    | keyword hname | identifier hname => rintro rfl; exact hname
    | blank | newline | comment | string | unterminated | decimal => simp

/-- The segment that is the longest is the cut. -/
theorem Longest.eq_next {s : Segment} {rest : List Char} (h : Longest s rest) {c : Char}
    {cs : List Char} (htext : s.text ++ rest = c :: cs) : next c cs = (s, rest) := by
  have hcut := text_append_next c cs
  have hle := length_le_next h.1 ⟨rest, htext⟩
  have hge : (next c cs).1.text.length ≤ s.text.length :=
    h.2 _ (fits_next c cs) (htext ▸ ⟨_, hcut⟩)
  obtain ⟨hsame, hrest⟩ := List.append_inj (hcut.trans htext.symm) (by omega)
  have hrole : (next c cs).1.role = s.role := by
    obtain ⟨d, ds, hd⟩ := List.exists_cons_of_ne_nil (text_next_ne_nil c cs)
    rw [← role_next_of_fits (fits_next c cs) hd, ← role_next_of_fits h.1 (hsame ▸ hd)]
  have hsegment : (next c cs).1 = s := by
    show Segment.mk (next c cs).1.text (next c cs).1.role = ⟨s.text, s.role⟩
    rw [hsame, hrole]
  exact Prod.ext hsegment hrest

theorem longest_next (c : Char) (cs : List Char) : Longest (next c cs).1 (next c cs).2 := by
  refine ⟨fits_next c cs, fun s hs hp => ?_⟩
  rw [text_append_next] at hp
  exact length_le_next hs hp

/-- Every text has exactly one division. -/
theorem division_iff {cs : List Char} {ss : List Segment} : Division cs ss ↔ ss = divide cs := by
  constructor
  · intro h
    induction h with
    | nil => rw [divide]
    | @cons s rest ss hs _ ih =>
      obtain ⟨c, cs, hc⟩ := List.exists_cons_of_ne_nil hs.1.text_ne_nil
      have htext : s.text ++ rest = c :: (cs ++ rest) := by rw [hc, List.cons_append]
      rw [htext, divide, hs.eq_next htext, ih]
  · rintro rfl
    fun_induction divide cs with
    | case1 => exact .nil
    | case2 c cs ih =>
      have := Division.cons (longest_next c cs) ih
      rwa [text_append_next] at this

theorem Division.fits {cs : List Char} {ss : List Segment} (h : Division cs ss) :
    ∀ s ∈ ss, Fits s := by
  induction h with
  | nil => simp
  | cons hs _ ih => exact List.forall_mem_cons.2 ⟨hs.1, ih⟩

/-- What starts with a digit is a number: its conversion has not failed. -/
theorem isNumber_of_mem_divide {cs : List Char} {s : Segment} (hs : s ∈ divide cs) {c : Char}
    (hhead : s.text.head? = some c) (hc : c.isDigit = true) :
    ∃ x, Number.ofText? s.text = some x ∧ s.role = .token .number (some (.number x)) := by
  fun_induction divide cs with
  | case1 => cases hs
  | case2 d ds ih =>
    rcases List.mem_cons.1 hs with rfl | hs
    · obtain rfl : d = c := by
        have hcut := congrArg List.head? (text_append_next d ds)
        rw [List.head?_append, hhead] at hcut
        exact (Option.some.inj hcut).symm
      obtain ⟨x, htext, -⟩ := exists_number hc ds
      rw [next_of_isDigit hc, number_eq htext]
      exact ⟨x, htext, rfl⟩
    · exact ih hs

theorem Division.text_ne_nil {cs : List Char} {ss : List Segment} (h : Division cs ss) :
    ∀ s ∈ ss, s.text ≠ [] :=
  fun s hs => (h.fits s hs).text_ne_nil

end Segment

open Segment

/-- Every source text falls into segments in exactly one way that takes the longest segment in each
place, and none of them is empty. The tokens are those segments that are tokens, each with the line
on which it ends, and behind them one mark at the end; the errors are the texts left open and the
unexpected characters. What starts with a digit is a token: the conversion of its text, which may
fail, gives a number. -/
theorem tokenize_division (source : String) : ∃ segments,
    (∀ other, Division source.toList other ↔ other = segments) ∧
    (∀ s ∈ segments, s.text ≠ []) ∧
    (tokenize source).items =
      collect token? 1 segments ++ [.eof (1 + source.toList.count '\n')] ∧
    (∀ t ∈ collect token? 1 segments, t.kind ≠ .eof) ∧
    (tokenize source).errors = collect fault? 1 segments ∧
    (∀ s ∈ segments, ∀ c, s.text.head? = some c → c.isDigit = true →
      ∃ x, Number.ofText? s.text = some x ∧ s.role = .token .number (some (.number x))) := by
  have hdivide : Division source.toList (divide source.toList) := division_iff.2 rfl
  refine ⟨divide source.toList, fun _ => division_iff, hdivide.text_ne_nil, ?_, ?_, ?_,
    fun s hs c => isNumber_of_mem_divide hs⟩
  · rw [tokenize_eq]
  · exact kind_collect_ne_eof 1 source.toList
  · rw [tokenize_eq]

end Sprog
