import LetStack.Proofs.Token.Trivia
import LetStack.Token.Scanner

/-!
A source is trivia and the texts of its tokens by turns (`Laid`), and the spans of the tokens say where these texts
are (`tokenize_lossless`).
-/

namespace LetStack.Token

/-- Tokens that lie in a text with trivia between them. The text starts at an offset of the source, from
which the spans count. -/
inductive Laid : Nat → Bytes → List Token → Prop
  | trivia {offset : Nat} {gap : Bytes} : Trivia gap → Laid offset gap []
  | token {offset : Nat} {gap rest : Bytes} {tok : Token} {toks : List Token} : Trivia gap → tok.text ≠ [] →
      tok.span.start.toNat = offset + gap.length →
      tok.span.stop.toNat = offset + gap.length + tok.text.length →
      tok.span.length.toNat = tok.text.length →
      Laid (offset + gap.length + tok.text.length) rest toks → Laid offset (gap ++ (tok.text ++ rest)) (tok :: toks)

/-- A token whose span is inside the source and covers its text. -/
structure Placed (src : Bytes) (tok : Token) : Prop where
  nonempty : tok.span.start.toNat < tok.span.stop.toNat
  inside : tok.span.stop.toNat ≤ src.length
  text : tok.text = (src.drop tok.span.start.toNat).take (tok.span.stop.toNat - tok.span.start.toNat)
  length : tok.span.length.toNat = tok.span.stop.toNat - tok.span.start.toNat

/-- What the spans of tokens leave of a source from an offset on: the bytes in front of each token, and
those behind the last. -/
def gapsFrom (src : Bytes) (offset : Nat) : List Token → List Bytes
  | [] => [src.drop offset]
  | tok :: toks =>
    (src.drop offset).take (tok.span.start.toNat - offset) :: gapsFrom src tok.span.stop.toNat toks

def gaps (src : Bytes) (toks : List Token) : List Bytes := gapsFrom src 0 toks

/-- Gaps and the texts of tokens by turns. -/
def woven : List Bytes → List Token → Bytes
  | gap :: gaps, tok :: toks => gap ++ (tok.text ++ woven gaps toks)
  | gaps, _ => gaps.flatten

end LetStack.Token

namespace LetStack.Scanner
open Token

/-! ## Scanning -/

/-- Skipping stops at the end of the source or where a token starts. -/
theorem skipTrivia_stops (s : Scanner) (h : s.skipTrivia.rest ≠ []) :
    lineBreakLength s.skipTrivia.rest = 0 ∧ blankLength s.skipTrivia.rest = 0 := by
  fun_induction skipTrivia s with
  | case1 s empty => exact absurd empty h
  | case2 s _ _ ih => exact ih h
  | case3 s _ _ _ ih => exact ih h
  | case4 s _ noBreak noBlank => exact ⟨Nat.eq_zero_of_not_pos noBreak, Nat.eq_zero_of_not_pos noBlank⟩

variable {s t : Scanner} {tok : Token}

theorem skipTrivia_eq_self (noBreak : lineBreakLength s.rest = 0) (noBlank : blankLength s.rest = 0) :
    s.skipTrivia = s := by
  unfold skipTrivia
  simp [noBreak, noBlank]

theorem skipTrivia_gap (s : Scanner) :
    ∃ gap, Trivia gap ∧ s.rest = gap ++ s.skipTrivia.rest ∧ s.skipTrivia.offset = s.offset + gap.length := by
  -- a line break and a blank are skipped alike: a piece of trivia, then the rest
  have step {s t : Scanner} {n : Nat} (piece : Trivia (s.rest.take n)) (rest : t.rest = s.rest.drop n)
      (offset : t.offset = s.offset + (s.rest.take n).length)
      (ih : ∃ gap, Trivia gap ∧ t.rest = gap ++ t.skipTrivia.rest ∧ t.skipTrivia.offset = t.offset + gap.length) :
      ∃ gap, Trivia gap ∧ s.rest = gap ++ t.skipTrivia.rest ∧ t.skipTrivia.offset = s.offset + gap.length := by
    obtain ⟨gap, trivia, split, place⟩ := ih
    refine ⟨s.rest.take n ++ gap, piece.append trivia, ?_, ?_⟩
    · rw [List.append_assoc, ← split, rest, List.take_append_drop]
    · rw [place, offset, List.length_append, Nat.add_assoc]
  fun_induction skipTrivia s with
  | case1 s _ => exact ⟨[], .nil, rfl, rfl⟩
  | case2 s _ _ ih => exact step (trivia_lineBreak s.rest) rfl rfl ih
  | case3 s _ _ _ ih => exact step (trivia_blank s.rest) rfl rfl ih
  | case4 s _ _ _ => exact ⟨[], .nil, rfl, rfl⟩

theorem next?_eq_none_iff : s.next? = none ↔ s.skipTrivia.rest = [] := by
  by_cases empty : s.skipTrivia.rest = []
  · simp [next?, empty]
  · simp [next?, empty]

theorem next?_of_ne_nil (h : s.skipTrivia.rest ≠ []) :
    s.next? = some (s.skipTrivia.tokenOf (measure s.skipTrivia.rest).1 (measure s.skipTrivia.rest).2,
      s.skipTrivia.advance (measure s.skipTrivia.rest).2) :=
  if_neg h

theorem next?_eq_none_iff_trivia : s.next? = none ↔ Trivia s.rest := by
  obtain ⟨gap, trivia, split, _⟩ := s.skipTrivia_gap
  rw [next?_eq_none_iff, split]
  constructor
  · intro ended
    rwa [ended, List.append_nil]
  · intro whole
    by_cases ended : s.skipTrivia.rest = []
    · exact ended
    · obtain ⟨noBreak, noBlank⟩ := s.skipTrivia_stops ended
      exact absurd (trivia.of_append whole) (not_trivia ended noBreak noBlank)

/-- What one step of scanning yields: the token is measured where the skipping stopped, and the scanner goes on
behind it. -/
theorem next?_eq_some (h : s.next? = some (tok, t)) :
    s.skipTrivia.rest ≠ [] ∧ ∃ kind n, measure s.skipTrivia.rest = (kind, n) ∧ tok = s.skipTrivia.tokenOf kind n ∧
      t = s.skipTrivia.advance n := by
  simp only [next?] at h
  generalize measure s.skipTrivia.rest = measured at h
  split at h
  · cases h
  · next nonempty =>
    cases h
    exact ⟨nonempty, _, _, rfl, rfl, rfl⟩

theorem token_laid {offset n : Nat} {gap : Bytes} (kind : Kind) (trivia : Trivia gap)
    (place : s.offset = offset + gap.length) (short : s.offset + s.rest.length < UInt32.size) (nonempty : s.rest ≠ [])
    (positive : 0 < n) {toks : List Token} (later : Laid (s.advance n).offset (s.advance n).rest toks) :
    Laid offset (gap ++ s.rest) (s.tokenOf kind n :: toks) := by
  have behind : (s.advance n).offset = offset + gap.length + (s.rest.take n).length := by
    rw [← place]
    rfl
  have inside : (s.rest.take n).length ≤ s.rest.length := List.length_take_le' n s.rest
  have text : s.rest.take n ≠ [] := by
    intro empty
    rcases List.take_eq_nil_iff.1 empty with zero | ended
    · exact Nat.ne_of_gt positive zero
    · exact nonempty ended
  have start : (UInt32.ofNat s.offset).toNat = offset + gap.length := by
    rw [UInt32.toNat_ofNat_of_lt' (by omega), place]
  have stop : (UInt32.ofNat (s.advance n).offset).toNat = offset + gap.length + (s.rest.take n).length := by
    rw [UInt32.toNat_ofNat_of_lt' (by omega), behind]
  have length : (UInt32.ofNat (s.advance n).offset - UInt32.ofNat s.offset).toNat = (s.rest.take n).length := by
    rw [UInt32.toNat_sub_of_le _ _ (by rw [UInt32.le_iff_toNat_le]; omega), stop, start, Nat.add_sub_cancel_left]
  rw [behind] at later
  rw [← List.take_append_drop n s.rest]
  show Laid offset (gap ++ ((s.tokenOf kind n).text ++ s.rest.drop n)) _
  exact .token trivia text start stop length later

theorem next?_laid (h : s.next? = some (tok, t)) (short : s.offset + s.rest.length < UInt32.size) :
    t.offset + t.rest.length < UInt32.size ∧
      ∀ toks, Laid t.offset t.rest toks → Laid s.offset s.rest (tok :: toks) := by
  obtain ⟨gap, trivia, split, place⟩ := s.skipTrivia_gap
  obtain ⟨nonempty, kind, n, measured, rfl, rfl⟩ := next?_eq_some h
  have positive := measure_pos s.skipTrivia.rest
  rw [measured] at positive
  have size := congrArg List.length split
  rw [List.length_append] at size
  refine ⟨?_, fun toks later => ?_⟩
  · have parts := congrArg List.length (List.take_append_drop n s.skipTrivia.rest)
    rw [List.length_append] at parts
    show s.skipTrivia.offset + (s.skipTrivia.rest.take n).length + (s.skipTrivia.rest.drop n).length < UInt32.size
    omega
  · rw [split]
    exact token_laid kind trivia place (by omega) nonempty positive later

theorem run_laid (s : Scanner) (short : s.offset + s.rest.length < UInt32.size) : Laid s.offset s.rest s.run.1 := by
  fun_induction run s with
  | case1 s ended => exact .trivia (next?_eq_none_iff_trivia.1 ended)
  | case2 s tok t next toks last rest ih =>
    -- the offset and what is left add up to no more behind a token than in front of it
    obtain ⟨shorter, laid⟩ := next?_laid next short
    rw [rest] at ih
    exact laid toks (ih shorter)

theorem run_cons (h : s.next? = some (tok, t)) : s.run.1 = tok :: t.run.1 := by
  rw [run]
  split
  · next ended =>
    rw [h] at ended
    cases ended
  · next next =>
    rw [h] at next
    cases next
    rfl

theorem run_trivia {s : Scanner} (h : Trivia s.rest) : s.run.1 = [] := by
  have ended := next?_eq_none_iff_trivia.2 h
  unfold run
  split
  · rfl
  · next next =>
    rw [ended] at next
    cases next

end LetStack.Scanner

namespace LetStack.Token

/-! ## Spans -/

variable {offset : Nat} {x : Bytes} {toks : List Token}

theorem Laid.le_start (h : Laid offset x toks) {tok : Token} (member : tok ∈ toks) : offset ≤ tok.span.start.toNat := by
  induction h with
  | trivia _ => cases member
  | token _ _ start _ _ _ ih =>
    cases member with
    | head => omega
    | tail _ member =>
      have := ih member
      omega

theorem Laid.pairwise (h : Laid offset x toks) : toks.Pairwise fun a b => a.span.stop ≤ b.span.start := by
  induction h with
  | trivia _ => exact .nil
  | token _ _ _ stop _ later ih =>
    refine .cons (fun tok member => ?_) ih
    rw [UInt32.le_iff_toNat_le, stop]
    exact later.le_start member

theorem length_before {before : Bytes} (place : before.length = offset) (gap text : Bytes) :
    (before ++ (gap ++ text)).length = offset + gap.length + text.length := by
  rw [List.length_append, List.length_append, place, Nat.add_assoc]

theorem Laid.placed (h : Laid offset x toks) (before : Bytes) (place : before.length = offset) {tok : Token}
    (member : tok ∈ toks) : Placed (before ++ x) tok := by
  induction h generalizing before with
  | trivia _ => cases member
  | @token offset gap rest first toks trivia nonempty start stop length later ih =>
    have covered := length_before place gap first.text
    have whole : before ++ (gap ++ (first.text ++ rest)) = before ++ (gap ++ first.text) ++ rest := by
      simp only [List.append_assoc]
    cases member with
    | head =>
      have positive := List.length_pos_iff.2 nonempty
      refine ⟨by omega, ?_, ?_, by omega⟩
      · rw [whole, List.length_append, covered, stop]
        exact Nat.le_add_right _ _
      · have front : offset + gap.length = (before ++ gap).length := by rw [List.length_append, place]
        rw [start, stop, Nat.add_sub_cancel_left, front, ← List.append_assoc, List.drop_left, List.take_left]
    | tail _ member =>
      rw [whole]
      exact ih (before ++ (gap ++ first.text)) covered member

/-- The gaps are the trivia between the tokens, and nothing is missing. -/
theorem Laid.gaps (h : Laid offset x toks) (before : Bytes) (place : before.length = offset) :
    (∀ gap ∈ gapsFrom (before ++ x) offset toks, Trivia gap) ∧
      woven (gapsFrom (before ++ x) offset toks) toks = x := by
  induction h generalizing before with
  | trivia trivia =>
    rw [gapsFrom, ← place, List.drop_left]
    exact ⟨by simpa using trivia, by simp [woven]⟩
  | @token offset gap rest first toks trivia nonempty start stop length later ih =>
    obtain ⟨all, same⟩ := ih (before ++ (gap ++ first.text)) (length_before place gap first.text)
    simp only [List.append_assoc] at all same
    have front : (before ++ (gap ++ (first.text ++ rest))).drop offset = gap ++ (first.text ++ rest) := by
      rw [← place, List.drop_left]
    rw [gapsFrom, start, stop, Nat.add_sub_cancel_left, front, List.take_left]
    refine ⟨?_, by rw [woven, same]⟩
    rintro other (_ | ⟨_, member⟩)
    · exact trivia
    · exact all other member

/-- Scanning loses nothing: every token covers its own bytes of the source, the tokens follow one another,
and what is left between them is line breaks and blanks. A source of these alone has no token. -/
theorem tokenize_lossless {src : Bytes} (short : src.length < UInt32.size) :
    (∀ tok ∈ tokenize src, Placed src tok) ∧
    (tokenize src).Pairwise (fun a b => a.span.stop ≤ b.span.start) ∧
    (∀ gap ∈ gaps src (tokenize src), Trivia gap) ∧
    woven (gaps src (tokenize src)) (tokenize src) = src ∧
    (Trivia src → tokenize src = []) := by
  have laid : Laid 0 src (tokenize src) :=
    (Scanner.ofSource src).run_laid (by rw [Scanner.ofSource, Nat.zero_add]; exact short)
  obtain ⟨trivia, same⟩ := laid.gaps [] rfl
  exact ⟨fun tok member => laid.placed [] rfl member, laid.pairwise, trivia, same,
    @Scanner.run_trivia (.ofSource src)⟩

/-- In `a`, a blank, a stray byte and a line break of two bytes there are two tokens and three gaps. -/
theorem stray_byte_lossless :
    gaps [0x61, 0x20, 0xFF, 0x0D, 0x0A] (tokenize [0x61, 0x20, 0xFF, 0x0D, 0x0A]) = [[], [0x20], [0x0D, 0x0A]] ∧
    woven [[], [0x20], [0x0D, 0x0A]] (tokenize [0x61, 0x20, 0xFF, 0x0D, 0x0A]) = [0x61, 0x20, 0xFF, 0x0D, 0x0A] ∧
    (∀ tok ∈ tokenize [0x61, 0x20, 0xFF, 0x0D, 0x0A], Placed [0x61, 0x20, 0xFF, 0x0D, 0x0A] tok) ∧
    ∀ gap ∈ [[], [0x20], [0x0D, 0x0A]], Trivia gap := by
  have cut : gaps [0x61, 0x20, 0xFF, 0x0D, 0x0A] (tokenize [0x61, 0x20, 0xFF, 0x0D, 0x0A]) =
      [[], [0x20], [0x0D, 0x0A]] := by decide +kernel
  obtain ⟨placed, _, trivia, same, _⟩ := @tokenize_lossless [0x61, 0x20, 0xFF, 0x0D, 0x0A] (by decide)
  rw [cut] at trivia same
  exact ⟨cut, same, placed, trivia⟩

end LetStack.Token
