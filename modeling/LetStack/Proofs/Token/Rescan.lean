import LetStack.Proofs.Token.Scanned

/-!
The text of a token is read again as one token of the same kind (`token_rescans`): a class that matches a whole text
does so alone (`Matches.alone`), and what matches alone matches at least as far with more behind it
(`Matches.extend`).
-/

namespace LetStack.Token
open Utf8

/-! ## Classes without what follows -/

section Quoted
variable {pattern : RegularExpression UInt8} {length : Bytes → Nat}
variable (longest : ∀ x, GreatestOr (matchedLengths pattern x) 0 (length x))
include longest

/-- A text that is measured as a whole is so by itself. -/
theorem length_alone {w rest : Bytes} (some : 0 < length (w ++ rest)) (whole : length (w ++ rest) = w.length) :
    length w = w.length := by
  obtain ⟨_, text⟩ := (longest (w ++ rest)).mem some
  rw [whole, List.take_left] at text
  have least : w.length ≤ length w := (longest w).le ⟨Nat.le_refl _, by rwa [List.take_length]⟩
  have positive : 0 < length w := Nat.lt_of_lt_of_le (whole ▸ some) least
  exact Nat.le_antisymm ((longest w).mem positive).1 least

theorem length_extend {w : Bytes} (some : 0 < length w) (rest : Bytes) : length w ≤ length (w ++ rest) := by
  obtain ⟨u, text, front, same⟩ := mem_matchedLengths.1 ((longest w).mem some)
  exact (longest (w ++ rest)).le (mem_matchedLengths.2 ⟨u, text, front.trans (List.prefix_append w rest), same⟩)

end Quoted

theorem Matches.alone {w rest : Bytes} {cl : Class} {k : Kind} (h : Matches (w ++ rest) cl k w.length) :
    Matches w cl k w.length := by
  generalize size : w.length = n at h
  cases h with
  | @spelled _ _ u text front =>
    have same : u = w := by
      rw [List.prefix_iff_eq_take.1 front, ← size, List.take_left]
    rw [same] at text ⊢
    exact .spelled text List.prefix_rfl
  | character some =>
    have alone := length_alone charLength_longest some size.symm
    rw [← size, ← alone]
    exact .character (by omega)
  | string some =>
    have alone := length_alone stringLength_longest some size.symm
    rw [← size, ← alone]
    exact .string (by omega)

theorem Matches.extend {w : Bytes} {cl : Class} {k : Kind} {n : Nat} (h : Matches w cl k n) (rest : Bytes) :
    ∃ m, n ≤ m ∧ Matches (w ++ rest) cl k m := by
  cases h with
  | spelled text front => exact ⟨_, Nat.le_refl _, .spelled text (front.trans (List.prefix_append w rest))⟩
  | character some =>
    have further := length_extend charLength_longest some rest
    exact ⟨_, further, .character (Nat.lt_of_lt_of_le some further)⟩
  | string some =>
    have further := length_extend stringLength_longest some rest
    exact ⟨_, further, .string (Nat.lt_of_lt_of_le some further)⟩

/-- The best token of a text that reaches to its end is the best with more behind it. -/
theorem Best.eq_of_append {w rest : Bytes} {cl cl' : Class} {k k' : Kind} {n : Nat}
    (h : Best (w ++ rest) cl k w.length) (alone : Best w cl' k' n) : k' = k ∧ n = w.length := by
  have whole : Matches w cl k w.length := h.isMatch.alone
  have size : n = w.length := Nat.le_antisymm alone.isMatch.text.1 (alone.longest _ _ _ whole)
  subst size
  obtain ⟨m, further, other⟩ := alone.isMatch.extend rest
  have same : m = w.length := Nat.le_antisymm (h.longest _ _ _ other) further
  subst same
  -- neither class comes before the other
  have ranks : cl'.rank = cl.rank := Nat.le_antisymm (alone.first _ _ whole) (h.first _ _ other)
  exact ⟨h.unique _ _ other ranks, rfl⟩

/-! ## Tokens -/

theorem ReadBefore.alone {tok : Token} {rest : Bytes} (h : ReadBefore tok rest) : ReadBefore tok [] := by
  have noBreak : lineBreakLength tok.text = 0 := lineBreakLength_eq_zero_iff.2 fun c found =>
    lineBreakLength_eq_zero_iff.1 h.noBreak c (decode?_append found rest)
  have noBlank : blankLength tok.text = 0 := blankLength_eq_zero_iff.2 fun c found =>
    blankLength_eq_zero_iff.1 h.noBlank c (decode?_append found rest)
  have measured : Scanner.measure tok.text = (tok.kind, tok.text.length) := by
    rcases h.best_or_stray with ⟨cl, best⟩ | ⟨kind, stray, _⟩
    · obtain ⟨c, found, _⟩ := best.isMatch.alone.lead_eq
      obtain ⟨cl', alone⟩ := measure_best found noBreak noBlank
      obtain ⟨same, size⟩ := best.eq_of_append alone
      exact Prod.ext same size
    · have none : decode? tok.text = none :=
        List.append_nil tok.text ▸ stray.alone 0 (List.length_pos_iff.2 h.nonempty)
      rw [measure_none h.nonempty none, stray.alone.strayLength_eq, kind]
  exact ⟨h.nonempty, by rwa [List.append_nil], by rwa [List.append_nil], by rwa [List.append_nil]⟩

theorem ReadBefore.tokenize_eq {tok : Token} (h : ReadBefore tok []) :
    ∃ again, tokenize tok.text = [again] ∧ again.kind = tok.kind ∧ again.text = tok.text := by
  obtain ⟨nonempty, noBreak, noBlank, measured⟩ := h
  rw [List.append_nil] at noBreak noBlank measured
  have stays : (Scanner.ofSource tok.text).skipTrivia = .ofSource tok.text :=
    Scanner.skipTrivia_eq_self noBreak noBlank
  have next := Scanner.next?_of_ne_nil (s := .ofSource tok.text) (by rw [stays]; exact nonempty)
  rw [stays, show (Scanner.ofSource tok.text).rest = tok.text from rfl, measured] at next
  have ended : Trivia ((Scanner.ofSource tok.text).advance tok.text.length).rest := by
    show Trivia (tok.text.drop tok.text.length)
    rw [List.drop_length]
    exact .nil
  refine ⟨(Scanner.ofSource tok.text).tokenOf tok.kind tok.text.length, ?_, rfl, List.take_length⟩
  rw [tokenize, Scanner.run_cons next]
  exact congrArg _ (Scanner.run_trivia ended)

/-- Whatever stood around it, the text of a token is scanned as one token, of the same kind. -/
theorem token_rescans {src : Bytes} {tok : Token} (member : tok ∈ tokenize src) :
    ∃ again, tokenize tok.text = [again] ∧ again.kind = tok.kind ∧ again.text = tok.text := by
  obtain ⟨placed, scanned, same⟩ := exists_scanned (.ofSource src)
  rw [tokenize, ← same] at member
  obtain ⟨p, found, rfl⟩ := List.mem_map.1 member
  obtain ⟨_, _, rest, _, _, read, _⟩ := scanned.stands [] rfl (.inl rfl) found
  exact read.alone.tokenize_eq

/-- Behind `'b'c` the first two bytes of a character of three stand alone, and are scanned alone as they were. -/
theorem cut_character_rescans :
    let cut : Token := ⟨.invalid, ⟨4, 6, 0, 6, 2⟩, [0xE2, 0x82]⟩
    cut ∈ tokenize [0x27, 0x62, 0x27, 0x63, 0xE2, 0x82, 0x3B] ∧
      ∃ again, tokenize [0xE2, 0x82] = [again] ∧ again.kind = .invalid ∧ again.text = [0xE2, 0x82] := by
  intro cut
  have member : cut ∈ tokenize [0x27, 0x62, 0x27, 0x63, 0xE2, 0x82, 0x3B] := by decide +kernel
  exact ⟨member, token_rescans member⟩

end LetStack.Token
