import LetStack.Proofs.Text.Overlap
import LetStack.Proofs.Token.Order

/-!
`endsLineBreak` says where line breaks end in a source, and `breaksBetween` which of them are not inside a token. The
line of a token is the number of those in front of it, and its column reaches from the last one to its end
(`tokenize_lines`). `Counted` is the invariant of the scanner.
-/

namespace LetStack.Token
open Utf8

/-! ## Counting up to an offset -/

/-- The numbers up to `n` that have a property. -/
def upTo (p : Nat → Bool) (n : Nat) : List Nat := (List.range (n + 1)).filter p

theorem upTo_add (p : Nat → Bool) (n k : Nat) :
    upTo p (n + k) = upTo p n ++ ((List.range k).map (n + 1 + ·)).filter p := by
  rw [upTo, Nat.add_right_comm, List.range_add, List.filter_append]
  rfl

variable {p : Nat → Bool}

theorem upTo_add_eq_self {n k : Nat} (none : ∀ j, 0 < j → j ≤ k → p (n + j) = false) : upTo p (n + k) = upTo p n := by
  have nothing : ((List.range k).map (n + 1 + ·)).filter p = [] := by
    refine List.filter_eq_nil_iff.2 (List.forall_mem_map.2 fun j below => ?_)
    rw [Nat.add_assoc, none (1 + j) (by omega) (by have := List.mem_range.1 below; omega)]
    exact Bool.false_ne_true
  rw [upTo_add, nothing, List.append_nil]

theorem upTo_add_succ {n k : Nat} (none : ∀ j, 0 < j → j ≤ k → p (n + j) = false) (last : p (n + (k + 1)) = true) :
    upTo p (n + (k + 1)) = upTo p n ++ [n + (k + 1)] := by
  rw [← Nat.add_assoc] at last ⊢
  rw [upTo_add, upTo_add_eq_self none]
  simp [last]

theorem le_of_mem_upTo {m n : Nat} (h : m ∈ upTo p n) : m ≤ n :=
  Nat.le_of_lt_succ (List.mem_range.1 (List.mem_filter.1 h).1)

/-- The last of them, or 0. -/
def lastUpTo (p : Nat → Bool) (n : Nat) : Nat := (upTo p n).getLast?.getD 0

theorem lastUpTo_le (p : Nat → Bool) (n : Nat) : lastUpTo p n ≤ n := by
  unfold lastUpTo
  cases last : (upTo p n).getLast? with
  | none => exact Nat.zero_le n
  | some m => exact le_of_mem_upTo (List.mem_of_getLast? last)

/-! ## Line breaks of a source -/

/-- The characters that end a line. -/
def lineBreaks : List Char := ['\n', '\x0B', '\x0C', '\r', '\u0085', '\u2028', '\u2029']

/-- A line break ends at an offset. A carriage return and a line feed are one, which ends behind the line feed. -/
def endsLineBreak (src : Bytes) (n : Nat) : Bool :=
  lineBreaks.any fun c => (encode c).isSuffixOf (src.take n) && !(c == '\r' && src[n]? == some 0x0A)

/-- The offset is not inside the token and not at its end. -/
def clearOf (n : Nat) (tok : Token) : Bool := n ≤ tok.span.start.toNat || tok.span.stop.toNat < n

/-- A line break between tokens ends at an offset. -/
def breaksBetween (src : Bytes) (toks : List Token) (n : Nat) : Bool := endsLineBreak src n && toks.all (clearOf n)

theorem mem_lineBreaks {c : Char} : c ∈ lineBreaks ↔ isLineBreak c = true := by
  constructor
  · have all : lineBreaks.all isLineBreak = true := by decide
    exact List.all_eq_true.1 all c
  · intro line
    have same : c = Char.ofNat c.toNat := (Char.ofNat_toNat c).symm
    simp only [isLineBreak, Bool.or_eq_true, Bool.and_eq_true, decide_eq_true_eq, beq_iff_eq] at line
    have value : c.toNat = 0x0A ∨ c.toNat = 0x0B ∨ c.toNat = 0x0C ∨ c.toNat = 0x0D ∨ c.toNat = 0x85 ∨
        c.toNat = 0x2028 ∨ c.toNat = 0x2029 := by omega
    rcases value with v | v | v | v | v | v | v <;> rw [same, v] <;> decide

theorem isLineBreak_of_isBlank {c : Char} (blank : isBlank c = true) : isLineBreak c = false := by
  simp only [isBlank, Bool.or_eq_true, Bool.and_eq_true, decide_eq_true_eq, beq_iff_eq] at blank
  rw [← Bool.not_eq_true]
  simp only [isLineBreak, Bool.or_eq_true, Bool.and_eq_true, decide_eq_true_eq, beq_iff_eq]
  omega

theorem endsLineBreak_zero (src : Bytes) : endsLineBreak src 0 = false := by
  refine List.any_eq_false.2 fun c _ => ?_
  simp [encode_ne_nil c]

/-- Of the bytes of a character only the last can end a line break. -/
theorem endsLineBreak_char (before : Bytes) (d : Char) (rest : Bytes) {k : Nat} (positive : 0 < k)
    (inside : k ≤ (encode d).length) :
    endsLineBreak (before ++ (encode d ++ rest)) (before.length + k) = true ↔
      k = (encode d).length ∧ isLineBreak d = true ∧ ¬(d = '\r' ∧ rest.head? = some 0x0A) := by
  have cut : (before ++ (encode d ++ rest)).take (before.length + k) = before ++ (encode d).take k := by
    rw [List.take_length_add_append, List.take_append_of_le_length inside]
  have front : (encode d).take k ≠ [] := List.ne_nil_of_length_pos (by rw [List.length_take]; omega)
  have next : (before ++ (encode d ++ rest))[before.length + (encode d).length]? = rest.head? := by
    rw [List.getElem?_append_right (Nat.le_add_right _ _), Nat.add_sub_cancel_left,
      List.getElem?_append_right (Nat.le_refl _), Nat.sub_self, List.head?_eq_getElem?]
  simp only [endsLineBreak, cut, List.any_eq_true, Bool.and_eq_true, Bool.not_eq_true', Bool.and_eq_false_imp,
    List.isSuffixOf_iff_suffix, beq_iff_eq, mem_lineBreaks]
  constructor
  · rintro ⟨c, line, ended, single⟩
    obtain ⟨rfl, nothing⟩ := eq_of_suffix (List.take_append_drop k (encode d)).symm front ended
    have whole : k = (encode c).length := Nat.le_antisymm inside (List.drop_eq_nil_iff.1 nothing)
    rw [whole, next] at single
    exact ⟨whole, line, fun both => by simpa [both.2] using single both.1⟩
  · rintro ⟨rfl, line, single⟩
    refine ⟨d, line, ?_, fun return' => ?_⟩
    · rw [List.take_length]
      exact List.suffix_append _ _
    · rw [next]
      simpa using fun feed => single ⟨return', feed⟩

theorem lineBreakLength_le (x : Bytes) : lineBreakLength x ≤ x.length := by
  rcases Nat.eq_zero_or_pos (lineBreakLength x) with none | some
  · rw [none]
    exact Nat.zero_le _
  rcases exists_lineBreak some with ⟨rest, rfl, length⟩ | ⟨c, rest, rfl, _, length, _⟩
  · rw [length]
    exact Nat.le_add_left 2 rest.length
  · rw [length, List.length_append]
    exact Nat.le_add_right _ _

theorem endsLineBreak_blank (before : Bytes) {x : Bytes} {j : Nat} (positive : 0 < j) (inside : j ≤ blankLength x) :
    endsLineBreak (before ++ x) (before.length + j) = false := by
  obtain ⟨c, rest, rfl, blank, length⟩ := exists_blank (Nat.lt_of_lt_of_le positive inside)
  rw [← Bool.not_eq_true, endsLineBreak_char before c rest positive (length ▸ inside), isLineBreak_of_isBlank blank]
  simp

theorem endsLineBreak_lineBreak (before : Bytes) {x : Bytes} {j : Nat} (positive : 0 < j)
    (inside : j ≤ lineBreakLength x) :
    endsLineBreak (before ++ x) (before.length + j) = true ↔ j = lineBreakLength x := by
  rcases exists_lineBreak (Nat.lt_of_lt_of_le positive inside) with
    ⟨rest, rfl, length⟩ | ⟨c, rest, rfl, line, length, other⟩
  · rw [length] at inside ⊢
    obtain rfl | rfl : j = 1 ∨ j = 2 := by omega
    · have first := endsLineBreak_char before '\r' (0x0A :: rest) (k := 1) (by decide) (by decide)
      exact first.trans ⟨fun ended => absurd ⟨rfl, rfl⟩ ended.2.2, fun same => absurd same (by decide)⟩
    · have second := endsLineBreak_char (before ++ encode '\r') '\n' rest (k := 1) (by decide) (by decide)
      rw [List.append_assoc, List.length_append] at second
      exact second.trans ⟨fun _ => rfl, fun _ => ⟨rfl, by decide, by simp⟩⟩
  · rw [length] at inside ⊢
    rw [endsLineBreak_char before c rest positive inside]
    exact and_iff_left ⟨line, other⟩

end LetStack.Token

namespace LetStack.Scanner
open Token Utf8

/-! ## What a scanner has counted -/

/-- The scanner has counted what has a property up to its offset, and keeps the last of it. -/
structure Counted (p : Nat → Bool) (s : Scanner) : Prop where
  line : s.line = (upTo p s.offset).length
  lineStart : s.lineStart = lastUpTo p s.offset

variable {p : Nat → Bool} {s : Scanner} {src : Bytes}

theorem Counted.advance (h : Counted p s) {n : Nat}
    (none : ∀ j, 0 < j → j ≤ (s.rest.take n).length → p (s.offset + j) = false) : Counted p (s.advance n) := by
  have same : upTo p (s.advance n).offset = upTo p s.offset := upTo_add_eq_self none
  refine ⟨?_, ?_⟩
  · rw [same]
    exact h.line
  · rw [lastUpTo, same]
    exact h.lineStart

theorem Counted.breakLine (h : Counted p s) {n : Nat} (some : 0 < (s.rest.take n).length)
    (last : ∀ j, 0 < j → j ≤ (s.rest.take n).length → (p (s.offset + j) = true ↔ j = (s.rest.take n).length)) :
    Counted p (s.breakLine n) := by
  have place : (s.breakLine n).offset = s.offset + (s.rest.take n).length := rfl
  have more : upTo p (s.breakLine n).offset = upTo p s.offset ++ [(s.breakLine n).offset] := by
    rw [place]
    obtain ⟨k, size⟩ := Nat.exists_eq_succ_of_ne_zero (Nat.ne_of_gt some)
    rw [size] at last ⊢
    refine upTo_add_succ (fun j positive inside => ?_) ((last _ (Nat.succ_pos k) (Nat.le_refl _)).2 rfl)
    rw [← Bool.not_eq_true, last j positive (Nat.le_succ_of_le inside)]
    exact Nat.ne_of_lt (Nat.lt_succ_of_le inside)
  refine ⟨?_, ?_⟩
  · rw [more, List.length_append, ← h.line]
    rfl
  · rw [lastUpTo, more, List.getLast?_concat]
    rfl

/-- The scanner has read its source up to its offset. -/
def StandsIn (src : Bytes) (s : Scanner) : Prop := ∃ before, src = before ++ s.rest ∧ before.length = s.offset

theorem StandsIn.advance (h : StandsIn src s) (n : Nat) : StandsIn src (s.advance n) := by
  obtain ⟨before, split, place⟩ := h
  refine ⟨before ++ s.rest.take n, ?_, ?_⟩
  · show src = before ++ s.rest.take n ++ s.rest.drop n
    rw [split, List.append_assoc, List.take_append_drop]
  · rw [List.length_append, place]
    rfl

theorem StandsIn.skipTrivia (h : StandsIn src s) : StandsIn src s.skipTrivia := by
  obtain ⟨before, rfl, place⟩ := h
  obtain ⟨gap, _, split, further⟩ := s.skipTrivia_gap
  refine ⟨before ++ gap, ?_, ?_⟩
  · rw [List.append_assoc, ← split]
  · rw [List.length_append, place, further]

theorem StandsIn.length (h : StandsIn src s) : s.offset + s.rest.length = src.length := by
  obtain ⟨before, rfl, place⟩ := h
  rw [List.length_append, place]

theorem StandsIn.endsLineBreak (h : StandsIn src s) {j : Nat} (positive : 0 < j) :
    (j ≤ lineBreakLength s.rest → (endsLineBreak src (s.offset + j) = true ↔ j = lineBreakLength s.rest)) ∧
      (j ≤ blankLength s.rest → endsLineBreak src (s.offset + j) = false) := by
  obtain ⟨before, rfl, place⟩ := h
  rw [← place]
  exact ⟨endsLineBreak_lineBreak before positive, endsLineBreak_blank before positive⟩

theorem offset_le_skipTrivia (s : Scanner) : s.offset ≤ s.skipTrivia.offset := by
  obtain ⟨gap, _, _, place⟩ := s.skipTrivia_gap
  exact place ▸ Nat.le_add_right _ _

/-- Where no token lies, skipping counts the line breaks. -/
theorem Counted.skipTrivia (h : Counted p s) (stands : StandsIn src s)
    (clear : ∀ n, s.offset < n → n ≤ s.skipTrivia.offset → p n = endsLineBreak src n) : Counted p s.skipTrivia := by
  fun_induction Scanner.skipTrivia s with
  | case1 s _ => exact h
  | case2 s nonempty some ih =>
    have skipped : s.offset + (s.rest.take (lineBreakLength s.rest)).length ≤ _ :=
      offset_le_skipTrivia (s.breakLine (lineBreakLength s.rest))
    have inside := lineBreakLength_le s.rest
    rw [List.length_take_of_le inside] at skipped
    refine ih (h.breakLine ?_ fun j positive within => ?_) (stands.advance _) fun n behind => ?_
    · rwa [List.length_take_of_le inside]
    · rw [List.length_take_of_le inside] at within ⊢
      rw [clear _ (by omega) (by omega)]
      exact (stands.endsLineBreak positive).1 within
    · exact clear n (Nat.lt_of_le_of_lt (Nat.le_add_right _ _) behind)
  | case3 s nonempty _ some ih =>
    have skipped : s.offset + (s.rest.take (blankLength s.rest)).length ≤ _ :=
      offset_le_skipTrivia (s.advance (blankLength s.rest))
    refine ih (h.advance fun j positive within => ?_) (stands.advance _) fun n behind => ?_
    · rw [clear _ (by omega) (by omega)]
      exact (stands.endsLineBreak positive).2 (Nat.le_trans within (List.length_take_le _ _))
    · exact clear n (Nat.lt_of_le_of_lt (Nat.le_add_right _ _) behind)
  | case4 s _ _ _ => exact h

/-! ## Tokens -/

section
variable {src : Bytes} (short : src.length < UInt32.size)
include short

variable {s : Scanner}

theorem StandsIn.fits (stands : StandsIn src s) {n : Nat} (inside : n ≤ s.offset) : (UInt32.ofNat n).toNat = n := by
  have := stands.length
  exact UInt32.toNat_ofNat_of_lt' (by omega)

theorem StandsIn.span (stands : StandsIn src s) (kind : Kind) (n : Nat) :
    (s.tokenOf kind n).span.start.toNat = s.offset ∧ (s.tokenOf kind n).span.stop.toNat = (s.advance n).offset :=
  ⟨stands.fits short (Nat.le_refl _), (stands.advance n).fits short (Nat.le_refl _)⟩

/-- The column of a token reaches from the last line break to its end. -/
theorem Counted.column {p : Nat → Bool} (h : Counted p s) (stands : StandsIn src s) (kind : Kind) (n : Nat) :
    (s.tokenOf kind n).span.column.toNat + lastUpTo p s.offset = (s.advance n).offset := by
  have before : s.lineStart ≤ s.offset := h.lineStart ▸ lastUpTo_le p s.offset
  have start : (UInt32.ofNat s.lineStart).toNat = s.lineStart := stands.fits short before
  have stop : (UInt32.ofNat (s.advance n).offset).toNat = (s.advance n).offset :=
    (stands.advance n).fits short (Nat.le_refl _)
  have order : s.lineStart ≤ (s.advance n).offset := Nat.le_trans before (Nat.le_add_right _ _)
  show (UInt32.ofNat (s.advance n).offset - UInt32.ofNat s.lineStart).toNat + _ = _
  rw [UInt32.toNat_sub_of_le _ _ (by rwa [UInt32.le_iff_toNat_le, start, stop]), start, stop, ← h.lineStart]
  exact Nat.sub_add_cancel order

/-- A token whose line and column are counted from what has a property in front of it. -/
structure Reported (p : Nat → Bool) (tok : Token) : Prop where
  line : tok.span.line.toNat = (upTo p tok.span.start.toNat).length
  column : tok.span.column.toNat + lastUpTo p tok.span.start.toNat = tok.span.stop.toNat

/-- In front of the next token no token lies, and in it no line break counts. -/
theorem breaksBetween_next {t : Scanner} {tok : Token} {toks : List Token} (stands : StandsIn src s)
    (next : s.next? = some (tok, t)) (all : ∀ other ∈ toks, other.span.stop.toNat ≤ s.offset ∨ other ∈ tok :: t.run.1)
    (member : tok ∈ toks) :
    (∀ n, s.offset < n → n ≤ s.skipTrivia.offset → breaksBetween src toks n = endsLineBreak src n) ∧
      ∀ n, s.skipTrivia.offset < n → n ≤ t.offset → breaksBetween src toks n = false := by
  obtain ⟨_, kind, size, _, rfl, rfl⟩ := next?_eq_some next
  obtain ⟨start, stop⟩ := stands.skipTrivia.span short kind size
  have later := run_laid (s.skipTrivia.advance size) ((stands.skipTrivia.advance size).length ▸ short)
  have behind : ∀ other ∈ s.skipTrivia.tokenOf kind size :: (s.skipTrivia.advance size).run.1,
      s.skipTrivia.offset ≤ other.span.start.toNat := by
    refine List.forall_mem_cons.2 ⟨Nat.le_of_eq start.symm, fun other found => ?_⟩
    exact Nat.le_trans (Nat.le_add_right _ _) (later.le_start found)
  constructor
  · intro n first upto
    have clear : toks.all (clearOf n) = true := by
      refine List.all_eq_true.2 fun other found => ?_
      rw [clearOf, Bool.or_eq_true, decide_eq_true_eq, decide_eq_true_eq]
      rcases all other found with passed | ahead
      · exact .inr (Nat.lt_of_le_of_lt passed first)
      · exact .inl (Nat.le_trans upto (behind other ahead))
    rw [breaksBetween, clear, Bool.and_true]
  · intro n first upto
    have covered : toks.all (clearOf n) = false := by
      refine List.all_eq_false.2 ⟨_, member, ?_⟩
      rw [clearOf, start, stop, Bool.or_eq_true, decide_eq_true_eq, decide_eq_true_eq]
      omega
    rw [breaksBetween, covered, Bool.and_false]

theorem run_reported (toks : List Token) (s : Scanner) (stands : StandsIn src s)
    (counted : Counted (breaksBetween src toks) s) (paced : s.Paced)
    (all : ∀ tok ∈ toks, tok.span.stop.toNat ≤ s.offset ∨ tok ∈ s.run.1) (among : ∀ tok ∈ s.run.1, tok ∈ toks) :
    ∀ tok ∈ s.run.1, Reported (breaksBetween src toks) tok := by
  fun_induction Scanner.run s with
  | case1 s _ => exact fun _ member => absurd member List.not_mem_nil
  | case2 s tok t next later last rest ih =>
    -- every token is behind the scanner or still to come, so which breaks count is known up to the next one
    rw [rest] at ih
    obtain ⟨member, others⟩ := List.forall_mem_cons.1 among
    obtain ⟨clear, covered⟩ := breaksBetween_next short stands next (by rwa [rest]) member
    obtain ⟨after, _, line⟩ := next?_line next paced (stands.length ▸ short)
    obtain ⟨_, kind, n, _, rfl, rfl⟩ := next?_eq_some next
    have skipped := counted.skipTrivia stands clear
    obtain ⟨start, stop⟩ := stands.skipTrivia.span short kind n
    have passed : s.offset ≤ (s.skipTrivia.advance n).offset :=
      Nat.le_trans s.offset_le_skipTrivia (Nat.le_add_right _ _)
    refine List.forall_mem_cons.2 ⟨⟨?_, ?_⟩, ih (stands.skipTrivia.advance n) (skipped.advance ?_) after ?_ others⟩
    · rw [line, start]
      exact skipped.line
    · rw [start, stop]
      exact skipped.column short stands.skipTrivia kind n
    · intro j positive inside
      exact covered _ (Nat.lt_add_of_pos_right positive) (Nat.add_le_add_left inside _)
    · intro other found
      rcases all other found with before | _ | ⟨_, ahead⟩
      · exact .inl (Nat.le_trans before passed)
      · exact .inl (Nat.le_of_eq stop)
      · exact .inr ahead

end

end LetStack.Scanner

namespace LetStack.Token

/-- The line of a token is the number of line breaks between tokens in front of it, its column reaches from the last of
them, or from the beginning, to its end, and its length from its start. None of these differences wraps, so the column
is at least the length. Lines do not decrease. -/
theorem tokenize_lines {src : Bytes} (short : src.length < UInt32.size) :
    (∀ tok ∈ tokenize src,
      tok.span.line.toNat = (upTo (breaksBetween src (tokenize src)) tok.span.start.toNat).length ∧
      lastUpTo (breaksBetween src (tokenize src)) tok.span.start.toNat ≤ tok.span.start.toNat ∧
      tok.span.column.toNat + lastUpTo (breaksBetween src (tokenize src)) tok.span.start.toNat =
        tok.span.stop.toNat ∧
      tok.span.length.toNat + tok.span.start.toNat = tok.span.stop.toNat ∧
      tok.span.length ≤ tok.span.column) ∧
    (tokenize src).Pairwise fun a b => a.span.line ≤ b.span.line := by
  have begun : Scanner.Counted (breaksBetween src (tokenize src)) (.ofSource src) := by
    have none : upTo (breaksBetween src (tokenize src)) 0 = [] :=
      List.filter_eq_nil_iff.2 (List.forall_mem_singleton.2 (by simp [breaksBetween, endsLineBreak_zero]))
    exact ⟨(congrArg List.length none).symm, (congrArg (·.getLast?.getD 0) none).symm⟩
  refine ⟨fun tok member => ?_, (tokenize_ordered short).lines⟩
  have reported := Scanner.run_reported short (tokenize src) (.ofSource src) ⟨[], rfl, rfl⟩ begun (Nat.le_refl 0)
    (fun tok => .inr) (fun tok => id) tok member
  have placed := tokenize_placed short member
  have before := lastUpTo_le (breaksBetween src (tokenize src)) tok.span.start.toNat
  have column := reported.column
  have nonempty := placed.nonempty
  have length := placed.length
  refine ⟨reported.line, before, column, by omega, ?_⟩
  rw [UInt32.le_iff_toNat_le]
  omega

/-- Behind a string with a line feed inside, a carriage return with a line feed and a blank there is `x`: one line break
counts, and `x` ends two bytes behind it. -/
theorem break_in_string_uncounted :
    let src : Bytes := [0x22, 0x0A, 0x22, 0x0D, 0x0A, 0x20, 0x78]
    let x : Token := ⟨.ident, ⟨6, 7, 1, 2, 1⟩, [0x78]⟩
    src.length < UInt32.size ∧ x ∈ tokenize src ∧ upTo (breaksBetween src (tokenize src)) 6 = [5] ∧
      x.span.line.toNat = (upTo (breaksBetween src (tokenize src)) 6).length ∧
      x.span.column.toNat + lastUpTo (breaksBetween src (tokenize src)) 6 = x.span.stop.toNat := by
  intro src x
  have short : src.length < UInt32.size := by decide
  have member : x ∈ tokenize src := by decide +kernel
  obtain ⟨line, _, column, _⟩ := (tokenize_lines short).1 x member
  exact ⟨short, member, by decide +kernel, line, column⟩

end LetStack.Token
