import LetStack.Proofs.Text.Utf8
import LetStack.Token.Longest

/-!
What lies between tokens: line breaks and blanks.
-/

namespace LetStack.Token

/-- A text of line breaks and blanks. -/
def Trivia (x : Bytes) : Prop :=
  ∃ cs : List Char, x = Utf8.ofChars cs ∧ ∀ c ∈ cs, isLineBreak c = true ∨ isBlank c = true

theorem Trivia.nil : Trivia [] := ⟨[], rfl, by simp⟩

variable {x : Bytes} {c : Char}

theorem Trivia.append {y : Bytes} (hx : Trivia x) (hy : Trivia y) : Trivia (x ++ y) := by
  obtain ⟨cs, rfl, before⟩ := hx
  obtain ⟨ds, rfl, after⟩ := hy
  refine ⟨cs ++ ds, (Utf8.ofChars_append cs ds).symm, fun c member => ?_⟩
  rcases List.mem_append.1 member with member | member
  · exact before c member
  · exact after c member

theorem Trivia.of_append {y : Bytes} (hx : Trivia x) (h : Trivia (x ++ y)) : Trivia y := by
  obtain ⟨cs, rfl, _⟩ := hx
  obtain ⟨ds, split, all⟩ := h
  obtain ⟨es, rfl, rfl⟩ := Utf8.exists_of_ofChars_eq_append split.symm
  exact ⟨es, rfl, fun c member => all c (List.mem_append_right cs member)⟩

theorem trivia_encode (h : isLineBreak c = true ∨ isBlank c = true) : Trivia (Utf8.encode c) :=
  ⟨[c], by simp, by simpa using h⟩

theorem exists_blank (h : 0 < blankLength x) :
    ∃ c rest, x = Utf8.encode c ++ rest ∧ isBlank c = true ∧ blankLength x = (Utf8.encode c).length := by
  unfold blankLength at h ⊢
  split at h
  · next c found =>
    split at h
    · next blank =>
      obtain ⟨rest, rfl⟩ := Utf8.encode_of_decode? found
      exact ⟨c, rest, rfl, blank, (if_pos blank).trans (Utf8.length_encode c).symm⟩
    · cases h
  · cases h

/-- What a line break is measured by: a carriage return with a line feed, or a character that is not the first of
these. -/
theorem exists_lineBreak (h : 0 < lineBreakLength x) :
    (∃ rest, x = 0x0D :: 0x0A :: rest ∧ lineBreakLength x = 2) ∨
    ∃ c rest, x = Utf8.encode c ++ rest ∧ isLineBreak c = true ∧ lineBreakLength x = (Utf8.encode c).length ∧
      ¬(c = '\r' ∧ rest.head? = some 0x0A) := by
  unfold lineBreakLength at h ⊢
  split at h
  · next rest => exact .inl ⟨rest, rfl, rfl⟩
  · next other =>
    split at h
    · next c found =>
      split at h
      · next line =>
        obtain ⟨rest, rfl⟩ := Utf8.encode_of_decode? found
        refine .inr ⟨c, rest, rfl, line, (if_pos line).trans (Utf8.length_encode c).symm, ?_⟩
        rintro ⟨rfl, feed⟩
        obtain ⟨rest', rfl⟩ := List.head?_eq_some_iff.1 feed
        exact other rest' rfl
      · cases h
    · cases h

theorem trivia_blank (x : Bytes) : Trivia (x.take (blankLength x)) := by
  rcases Nat.eq_zero_or_pos (blankLength x) with none | some
  · rw [none]
    exact .nil
  · obtain ⟨c, rest, same, blank, length⟩ := exists_blank some
    rw [length, same, List.take_left]
    exact trivia_encode (.inr blank)

theorem trivia_lineBreak (x : Bytes) : Trivia (x.take (lineBreakLength x)) := by
  rcases Nat.eq_zero_or_pos (lineBreakLength x) with none | some
  · rw [none]
    exact .nil
  rcases exists_lineBreak some with ⟨rest, same, length⟩ | ⟨c, rest, same, line, length, _⟩
  · -- a carriage return and a line feed are two of the characters
    have breaks : isLineBreak '\r' = true ∧ isLineBreak '\n' = true := by decide
    rw [length, same]
    exact (trivia_encode (.inl breaks.1)).append (trivia_encode (.inl breaks.2))
  · rw [length, same, List.take_left]
    exact trivia_encode (.inl line)

theorem isBlank_of_blankLength (found : Utf8.decode? x = some c) (h : blankLength x = 0) : isBlank c = false := by
  unfold blankLength at h
  rw [found] at h
  cases blank : isBlank c with
  | false => rfl
  | true =>
    dsimp only at h
    rw [if_pos blank] at h
    exact absurd h (Nat.ne_of_gt c.utf8Size_pos)

theorem isLineBreak_of_lineBreakLength (found : Utf8.decode? x = some c) (h : lineBreakLength x = 0) :
    isLineBreak c = false := by
  unfold lineBreakLength at h
  split at h
  · cases h
  · rw [found] at h
    cases line : isLineBreak c with
    | false => rfl
    | true =>
      dsimp only at h
      rw [if_pos line] at h
      exact absurd h (Nat.ne_of_gt c.utf8Size_pos)

theorem blankLength_eq_zero_iff : blankLength x = 0 ↔ ∀ c, Utf8.decode? x = some c → isBlank c = false := by
  refine ⟨fun none c found => isBlank_of_blankLength found none, fun none => ?_⟩
  unfold blankLength
  split
  · next c found =>
    rw [none c found]
    rfl
  · rfl

theorem lineBreakLength_eq_zero_iff : lineBreakLength x = 0 ↔ ∀ c, Utf8.decode? x = some c → isLineBreak c = false := by
  refine ⟨fun none c found => isLineBreak_of_lineBreakLength found none, fun none => ?_⟩
  unfold lineBreakLength
  split
  · -- a carriage return is a line break by itself
    exact absurd (none _ (Utf8.decode?_ascii (by decide) _)) (by decide)
  · split
    · next c found =>
      rw [none c found]
      rfl
    · rfl

theorem not_trivia (nonempty : x ≠ []) (noBreak : lineBreakLength x = 0) (noBlank : blankLength x = 0) : ¬Trivia x := by
  rintro ⟨cs, rfl, all⟩
  cases cs with
  | nil => exact nonempty rfl
  | cons c cs =>
    have found : Utf8.decode? (Utf8.ofChars (c :: cs)) = some c := Utf8.decode?_encode c _
    have := all c List.mem_cons_self
    rw [isLineBreak_of_lineBreakLength found noBreak, isBlank_of_blankLength found noBlank] at this
    simp at this

end LetStack.Token
