import LetStack.Proofs.Text.Overlap
import LetStack.Proofs.Token.Characters

/-!
What `Scanner.run` reads: trivia and tokens by turns, each token measured with what stands behind it (`Scanned`,
`exists_scanned`). So the text of a literal is one of its kind (`literalText_of_mem_tokenize`). Offsets are numbers here,
which spans tell in words of 32 bits.
-/

namespace LetStack.Token
open Utf8

/-! ## Bytes of no character -/

/-- At none of the bytes `w` a character starts, with `rest` behind them. -/
def Stray (w rest : Bytes) : Prop := ∀ n < w.length, decode? (w.drop n ++ rest) = none

theorem Stray.nil (rest : Bytes) : Stray [] rest := by
  intro n short
  cases short

theorem Stray.cons {b : UInt8} {w rest : Bytes} (first : decode? (b :: (w ++ rest)) = none) (h : Stray w rest) :
    Stray (b :: w) rest := by
  intro n short
  cases n with
  | zero => exact first
  | succ n => exact h n (Nat.lt_of_succ_lt_succ short)

/-- No character comes next, or there is one. -/
def Resumes (x : Bytes) : Prop := x = [] ∨ ∃ c, decode? x = some c

theorem exists_stray (x : Bytes) :
    ∃ w rest, x = w ++ rest ∧ strayLength x = w.length ∧ Stray w rest ∧ Resumes rest := by
  induction x with
  | nil => exact ⟨[], [], rfl, rfl, .nil [], .inl rfl⟩
  | cons b x ih =>
    rw [strayLength]
    cases found : decode? (b :: x) with
    | some c => exact ⟨[], b :: x, rfl, rfl, .nil _, .inr ⟨c, found⟩⟩
    | none =>
      obtain ⟨w, rest, rfl, length, stray, resumes⟩ := ih
      exact ⟨b :: w, rest, rfl, congrArg (· + 1) length, stray.cons found, resumes⟩

variable {rest x : Bytes} {tok : Token} {offset : Nat}

theorem Stray.alone {w : Bytes} (h : Stray w rest) : Stray w [] := by
  intro n short
  rw [List.append_nil]
  cases found : decode? (w.drop n) with
  | none => rfl
  | some c => exact (decode?_append found rest).symm.trans (h n short)

theorem Stray.strayLength_eq {w : Bytes} (h : Stray w []) : strayLength w = w.length := by
  induction w with
  | nil => rfl
  | cons b w ih =>
    have none : decode? (b :: w) = none := List.append_nil (b :: w) ▸ h 0 (Nat.succ_pos _)
    rw [strayLength, none]
    exact congrArg (· + 1) (ih fun n short => h (n + 1) (Nat.succ_lt_succ short))

/-! ## What is measured -/

/-- A token at the start of a text, with what stands behind it: the whole of its text was measured, and nothing of it
could be skipped. -/
structure ReadBefore (tok : Token) (rest : Bytes) : Prop where
  nonempty : tok.text ≠ []
  noBreak : lineBreakLength (tok.text ++ rest) = 0
  noBlank : blankLength (tok.text ++ rest) = 0
  measured : Scanner.measure (tok.text ++ rest) = (tok.kind, tok.text.length)

theorem strayLength_pos (nonempty : x ≠ []) (none : decode? x = none) : 0 < strayLength x := by
  cases x with
  | nil => exact absurd rfl nonempty
  | cons b x =>
    rw [strayLength, none]
    exact Nat.succ_pos _

theorem measure_none (nonempty : x ≠ []) (none : decode? x = none) : Scanner.measure x = (.invalid, strayLength x) := by
  simp only [Scanner.measure, longestMatch_none none, if_pos]
  rw [Nat.max_eq_right (strayLength_pos nonempty none)]

theorem measure_le (nonempty : x ≠ []) (noBreak : lineBreakLength x = 0) (noBlank : blankLength x = 0) :
    (Scanner.measure x).2 ≤ x.length := by
  cases found : decode? x with
  | none =>
    rw [measure_none nonempty found]
    obtain ⟨w, rest, rfl, length, _⟩ := exists_stray x
    rw [length, List.length_append]
    exact Nat.le_add_right _ _
  | some c =>
    obtain ⟨cl, best⟩ := measure_best found noBreak noBlank
    exact best.isMatch.text.1

/-- A token is the best of its class or consists of bytes of no character, up to the next one. -/
theorem ReadBefore.best_or_stray (h : ReadBefore tok rest) :
    (∃ cl, Best (tok.text ++ rest) cl tok.kind tok.text.length) ∨
      tok.kind = .invalid ∧ Stray tok.text rest ∧ Resumes rest := by
  have measured := h.measured
  have nonempty : tok.text ++ rest ≠ [] := List.append_ne_nil_of_left_ne_nil h.nonempty rest
  cases found : decode? (tok.text ++ rest) with
  | some c =>
    obtain ⟨cl, best⟩ := measure_best found h.noBreak h.noBlank
    rw [measured] at best
    exact .inl ⟨cl, best⟩
  | none =>
    rw [measure_none nonempty found] at measured
    obtain ⟨kind, size⟩ := Prod.mk.inj measured
    obtain ⟨w, behind, split, length, stray, resumes⟩ := exists_stray (tok.text ++ rest)
    obtain ⟨rfl, rfl⟩ := List.append_inj split (size.symm.trans length)
    exact .inr ⟨kind.symm, stray, resumes⟩

theorem ReadBefore.text_cases (h : ReadBefore tok rest) :
    tok.kind ≠ .invalid ∧ Encoded tok.text ∨
    (tok.kind = .charLit ∨ tok.kind = .stringLit) ∧ InQuotes tok.text ∨
    tok.kind = .invalid ∧ Stray tok.text rest ∧ Resumes rest := by
  rcases h.best_or_stray with ⟨cl, best⟩ | stray
  · obtain ⟨_, valid, text⟩ := best.isMatch.text
    rw [List.take_left] at text
    rcases text with characters | quoted
    · exact .inl ⟨valid, characters⟩
    · exact .inr (.inl quoted)
  · exact .inr (.inr stray)

theorem ReadBefore.literalText (h : ReadBefore tok rest) : LiteralText tok.kind tok.text := by
  rcases h.best_or_stray with ⟨cl, best⟩ | ⟨invalid, _⟩
  · have text := best.isMatch.literalText
    rwa [List.take_left] at text
  · rw [invalid]
    trivial

/-! ## Runs -/

/-- The tokens of a text and where they start, trivia between them. The text starts at an offset of the source. -/
inductive Scanned : Nat → Bytes → List (Nat × Token) → Prop
  | trivia {offset : Nat} {gap : Bytes} : Trivia gap → Scanned offset gap []
  | token {offset : Nat} {gap rest : Bytes} {tok : Token} {placed : List (Nat × Token)} : Trivia gap →
      ReadBefore tok rest →
      tok.span.start = UInt32.ofNat (offset + gap.length) →
      tok.span.stop = UInt32.ofNat (offset + gap.length + tok.text.length) →
      Scanned (offset + gap.length + tok.text.length) rest placed →
      Scanned offset (gap ++ (tok.text ++ rest)) ((offset + gap.length, tok) :: placed)

theorem next?_readBefore {s t : Scanner} (h : s.next? = some (tok, t)) :
    ∃ gap, Trivia gap ∧ s.rest = gap ++ (tok.text ++ t.rest) ∧ ReadBefore tok t.rest ∧
      tok.span.start = UInt32.ofNat (s.offset + gap.length) ∧ tok.span.stop = UInt32.ofNat t.offset ∧
      t.offset = s.offset + gap.length + tok.text.length := by
  obtain ⟨gap, trivia, split, place⟩ := s.skipTrivia_gap
  obtain ⟨nonempty, kind, n, measured, rfl, rfl⟩ := Scanner.next?_eq_some h
  obtain ⟨noBreak, noBlank⟩ := s.skipTrivia_stops nonempty
  have cut : (s.skipTrivia.tokenOf kind n).text ++ (s.skipTrivia.advance n).rest = s.skipTrivia.rest :=
    List.take_append_drop n s.skipTrivia.rest
  have inside := measure_le nonempty noBreak noBlank
  have positive := Scanner.measure_pos s.skipTrivia.rest
  rw [measured] at inside positive
  have size : (s.skipTrivia.tokenOf kind n).text.length = n := List.length_take_of_le inside
  refine ⟨gap, trivia, ?_, ⟨?_, ?_, ?_, ?_⟩, ?_, rfl, ?_⟩
  · rwa [cut]
  · refine List.ne_nil_of_length_pos ?_
    rw [size]
    exact positive
  · rwa [cut]
  · rwa [cut]
  · rw [cut, size]
    exact measured
  · rw [← place]
    rfl
  · rw [← place]
    rfl

theorem exists_scanned (s : Scanner) :
    ∃ placed, Scanned s.offset s.rest placed ∧ placed.map Prod.snd = s.run.1 := by
  fun_induction Scanner.run s with
  | case1 s ended => exact ⟨[], .trivia (Scanner.next?_eq_none_iff_trivia.1 ended), rfl⟩
  | case2 s tok t next toks last rest ih =>
    obtain ⟨gap, trivia, split, read, start, stop, offset⟩ := next?_readBefore next
    obtain ⟨placed, scanned, same⟩ := ih
    rw [rest] at same
    rw [offset] at scanned stop
    rw [split]
    exact ⟨_ :: placed, .token trivia read start stop scanned, congrArg (tok :: ·) same⟩

theorem Scanned.exists_readBefore {placed : List (Nat × Token)} (h : Scanned offset x placed)
    (member : tok ∈ placed.map Prod.snd) : ∃ rest, ReadBefore tok rest := by
  induction h with
  | trivia _ => cases member
  | token _ read _ _ _ ih =>
    cases member with
    | head => exact ⟨_, read⟩
    | tail _ later => exact ih later

theorem literalText_of_mem_tokenize {src : Bytes} (h : tok ∈ tokenize src) : LiteralText tok.kind tok.text := by
  obtain ⟨placed, scanned, same⟩ := exists_scanned (.ofSource src)
  rw [tokenize, ← same] at h
  obtain ⟨rest, read⟩ := scanned.exists_readBefore h
  exact read.literalText

/-! ## Places of tokens -/

/-- A place where bytes of no character can only begin: behind a character, or where one starts. -/
def Fresh (u v : Bytes) : Prop := u = [] ∨ (∃ c, encode c <:+ u) ∨ Resumes v

theorem InQuotes.ends (h : InQuotes x) (u : Bytes) : ∃ c, encode c <:+ u ++ x := by
  obtain ⟨quote, body, rfl, ascii⟩ := h
  refine ⟨Char.ofNat quote.toNat, u ++ quote :: body, ?_⟩
  rw [encode_one ascii, List.append_assoc]
  rfl

theorem Fresh.gap {u gap v : Bytes} (h : Fresh u (gap ++ v)) (trivia : Trivia gap) : Fresh (u ++ gap) v := by
  obtain ⟨cs, rfl, _⟩ := trivia
  cases cs with
  | nil =>
    rw [ofChars_nil, List.nil_append] at h
    rwa [ofChars_nil, List.append_nil]
  | cons c cs =>
    have some : ofChars (c :: cs) ≠ [] := List.append_ne_nil_of_left_ne_nil (encode_ne_nil c) _
    exact .inr (.inl (Encoded.ends ⟨_, rfl⟩ some u))

theorem ReadBefore.fresh (h : ReadBefore tok rest) (u : Bytes) : Fresh (u ++ tok.text) rest := by
  rcases h.text_cases with ⟨_, characters⟩ | ⟨_, quoted⟩ | ⟨_, _, resumes⟩
  · exact .inr (.inl (characters.ends h.nonempty u))
  · exact .inr (.inl (quoted.ends u))
  · exact .inr (.inr resumes)

/-- A token that lies at an offset of its source, as its span says in words of 32 bits. -/
structure LiesAt (src : Bytes) (offset : Nat) (tok : Token) : Prop where
  text : tok.text <+: src.drop offset
  start : tok.span.start = UInt32.ofNat offset
  stop : tok.span.stop = UInt32.ofNat (offset + tok.text.length)

theorem Scanned.stands {placed : List (Nat × Token)} (h : Scanned offset x placed) (before : Bytes)
    (place : before.length = offset) (fresh : Fresh before x) {p : Nat × Token} (member : p ∈ placed) :
    LiesAt (before ++ x) p.1 p.2 ∧
      ∃ u v, before ++ x = u ++ (p.2.text ++ v) ∧ u.length = p.1 ∧ ReadBefore p.2 v ∧ Fresh u (p.2.text ++ v) := by
  induction h generalizing before with
  | trivia _ => cases member
  | @token offset gap rest tok placed trivia read start stop _ ih =>
    have passed := length_before place gap tok.text
    cases member with
    | head =>
      have front : (before ++ gap).length = offset + gap.length := by rw [List.length_append, place]
      refine ⟨⟨?_, start, stop⟩, before ++ gap, rest, (List.append_assoc ..).symm, front, read, fresh.gap trivia⟩
      rw [← front, ← List.append_assoc, List.drop_left]
      exact List.prefix_append _ _
    | tail _ later =>
      have found := ih (before ++ (gap ++ tok.text)) passed (List.append_assoc .. ▸ read.fresh (before ++ gap)) later
      rwa [List.append_assoc, List.append_assoc] at found

/-- Every byte lies between tokens or in one of them. -/
theorem Scanned.locate {placed : List (Nat × Token)} (h : Scanned offset x placed) (before : Bytes)
    (place : before.length = offset) {n : Nat} (first : offset ≤ n) (last : n < offset + x.length) :
    (∃ u gap v, before ++ x = u ++ (gap ++ v) ∧ Trivia gap ∧ u.length ≤ n ∧ n < u.length + gap.length) ∨
      ∃ p ∈ placed, p.1 ≤ n ∧ n < p.1 + p.2.text.length := by
  induction h generalizing before with
  | @trivia offset gap trivia => exact .inl ⟨before, gap, [], by rw [List.append_nil], trivia, by omega, by omega⟩
  | @token offset gap rest tok placed trivia _ _ _ _ ih =>
    rcases Nat.lt_or_ge n (offset + gap.length) with inGap | behindGap
    · exact .inl ⟨before, gap, tok.text ++ rest, rfl, trivia, by omega, by omega⟩
    rcases Nat.lt_or_ge n (offset + gap.length + tok.text.length) with inToken | behindToken
    · exact .inr ⟨_, List.mem_cons_self, behindGap, inToken⟩
    rw [List.length_append, List.length_append] at last
    rcases ih (before ++ (gap ++ tok.text)) (length_before place gap tok.text) behindToken (by omega) with
      ⟨u, gap', v, split, other⟩ | ⟨p, member, other⟩
    · refine .inl ⟨u, gap', v, ?_, other⟩
      rw [← split, List.append_assoc, List.append_assoc]
    · exact .inr ⟨p, List.mem_cons_of_mem _ member, other⟩

theorem Scanned.le_start {placed : List (Nat × Token)} (h : Scanned offset x placed) : ∀ p ∈ placed, offset ≤ p.1 := by
  induction h with
  | trivia _ => exact fun _ member => absurd member List.not_mem_nil
  | token _ _ _ _ _ ih =>
    refine List.forall_mem_cons.2 ⟨Nat.le_add_right _ _, fun p member => ?_⟩
    exact Nat.le_trans (by omega) (ih p member)

theorem Scanned.pairwise {placed : List (Nat × Token)} (h : Scanned offset x placed) :
    placed.Pairwise fun p q => p.1 + p.2.text.length ≤ q.1 := by
  induction h with
  | trivia _ => exact .nil
  | token _ _ _ _ later ih => exact .cons later.le_start ih

end LetStack.Token
