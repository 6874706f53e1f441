import LetStack.Proofs.Token.Layout

/-!
A scanner has passed no more line breaks than bytes, so the lines of tokens are words and do not decrease
(`tokenize_ordered`).
-/

namespace LetStack.Scanner
open Token

/-! ## Lines -/

/-- No more line breaks than bytes were passed. -/
def Paced (s : Scanner) : Prop := s.line ≤ s.offset

theorem Paced.advance {s : Scanner} (h : s.Paced) (n : Nat) : (s.advance n).Paced :=
  Nat.le_trans h (Nat.le_add_right ..)

theorem Paced.breakLine {s : Scanner} (h : s.Paced) (n : Nat) (positive : 0 < n) (nonempty : s.rest ≠ []) :
    (s.breakLine n).Paced := by
  have passed : 0 < (s.rest.take n).length := by
    rw [List.length_take]
    exact Nat.lt_min.2 ⟨positive, List.length_pos_iff.2 nonempty⟩
  exact Nat.add_le_add h passed

theorem Paced.skipTrivia {s : Scanner} (h : s.Paced) : s.skipTrivia.Paced ∧ s.line ≤ s.skipTrivia.line := by
  fun_induction Scanner.skipTrivia s with
  | case1 s _ => exact ⟨h, Nat.le_refl _⟩
  | case2 s nonempty positive ih =>
    obtain ⟨paced, later⟩ := ih (h.breakLine _ positive nonempty)
    exact ⟨paced, Nat.le_trans (Nat.le_succ _) later⟩
  | case3 s _ _ _ ih => exact ih (h.advance _)
  | case4 s _ _ _ => exact ⟨h, Nat.le_refl _⟩

theorem next?_line {s t : Scanner} {tok : Token} (h : s.next? = some (tok, t)) (paced : s.Paced)
    (short : s.offset + s.rest.length < UInt32.size) :
    t.Paced ∧ s.line ≤ t.line ∧ tok.span.line.toNat = t.line := by
  obtain ⟨gap, _, split, place⟩ := s.skipTrivia_gap
  obtain ⟨_, kind, n, _, rfl, rfl⟩ := next?_eq_some h
  obtain ⟨skipped, later⟩ := paced.skipTrivia
  have fits : s.skipTrivia.line < UInt32.size := by
    have size := congrArg List.length split
    rw [List.length_append] at size
    have := Nat.le_trans skipped (Nat.le_of_eq place)
    omega
  exact ⟨skipped.advance n, later, UInt32.toNat_ofNat_of_lt' fits⟩

theorem run_lines (s : Scanner) (paced : s.Paced) (short : s.offset + s.rest.length < UInt32.size) :
    (∀ tok ∈ s.run.1, s.line ≤ tok.span.line.toNat) ∧
      s.run.1.Pairwise fun a b => a.span.line ≤ b.span.line := by
  fun_induction run s with
  | case1 s ended => exact ⟨by simp, .nil⟩
  | case2 s tok t next toks last rest ih =>
    obtain ⟨after, later, line⟩ := next?_line next paced short
    obtain ⟨bound, ordered⟩ := ih after (next?_laid next short).1
    rw [rest] at bound ordered
    refine ⟨?_, .cons (fun other member => ?_) ordered⟩
    · rintro other (_ | ⟨_, member⟩)
      · exact line ▸ later
      · exact Nat.le_trans later (bound other member)
    · rw [UInt32.le_iff_toNat_le, line]
      exact bound other member

end LetStack.Scanner

namespace LetStack.Token

/-! ## Order -/

/-- Tokens one behind the other, none of them empty, on lines that do not decrease. -/
structure Ordered (toks : List Token) : Prop where
  nonempty : ∀ tok ∈ toks, tok.span.start < tok.span.stop
  length : ∀ tok ∈ toks, tok.span.length = tok.span.stop - tok.span.start
  apart : toks.Pairwise fun a b => a.span.stop ≤ b.span.start
  lines : toks.Pairwise fun a b => a.span.line ≤ b.span.line

theorem Ordered.sublist {toks part : List Token} (h : Ordered toks) (sub : part.Sublist toks) : Ordered part where
  nonempty tok member := h.nonempty tok (sub.subset member)
  length tok member := h.length tok (sub.subset member)
  apart := h.apart.sublist sub
  lines := h.lines.sublist sub

theorem Ordered.eq_of_start {toks : List Token} (h : Ordered toks) {a b : Token} (ha : a ∈ toks) (hb : b ∈ toks)
    (same : a.span.start = b.span.start) : a = b := by
  have absurd_of_before {a b : Token} (member : a ∈ toks) (before : a.span.stop ≤ b.span.start)
      (same : a.span.start = b.span.start) : False :=
    UInt32.not_lt.2 (same ▸ before) (h.nonempty a member)
  obtain ⟨i, hi, rfl⟩ := List.mem_iff_getElem.1 ha
  obtain ⟨j, hj, rfl⟩ := List.mem_iff_getElem.1 hb
  have apart := List.pairwise_iff_getElem.1 h.apart
  rcases Nat.lt_trichotomy i j with before | rfl | behind
  · exact (absurd_of_before ha (apart i j hi hj before) same).elim
  · rfl
  · exact (absurd_of_before hb (apart j i hj hi behind) same.symm).elim

section
variable {src : Bytes} (short : src.length < UInt32.size)
include short

theorem ofSource_short : (Scanner.ofSource src).offset + (Scanner.ofSource src).rest.length < UInt32.size := by
  rwa [Scanner.ofSource, Nat.zero_add]

theorem tokenize_laid : Laid 0 src (tokenize src) := (Scanner.ofSource src).run_laid (ofSource_short short)

theorem tokenize_placed {tok : Token} (member : tok ∈ tokenize src) : Placed src tok :=
  (tokenize_laid short).placed [] rfl member

theorem tokenize_ordered : Ordered (tokenize src) := by
  refine ⟨fun tok member => ?_, fun tok member => ?_, (tokenize_laid short).pairwise, ?_⟩
  · exact UInt32.lt_iff_toNat_lt.2 (tokenize_placed short member).nonempty
  · have placed := tokenize_placed short member
    have order : tok.span.start ≤ tok.span.stop := UInt32.le_iff_toNat_le.2 (Nat.le_of_lt placed.nonempty)
    rw [← UInt32.toNat_inj, placed.length, UInt32.toNat_sub_of_le _ _ order]
  · exact ((Scanner.ofSource src).run_lines (Nat.le_refl 0) (ofSource_short short)).2

end

end LetStack.Token
