import Mathlib.Data.List.Pairwise
import LetStack.Diagnostic.Basic
import LetStack.Proofs.Token.Scanned

/-!
Tokens of kind `invalid` are the runs of bytes that belong to no character, except inside quoted literals, and each is
warned about once, in the order of the source (`invalid_tokens_stray`).
-/

namespace LetStack

/-- The warning about a token of no class. -/
structure Diagnostic.WarnsOf (file : FileId) (tok : Token) (d : Diagnostic) : Prop where
  severity : d.severity = .warning
  code : d.code = .unrecognizedInput
  span : d.span = tok.span
  file : d.file = file

theorem Diagnostic.ofTokens_warns (file : FileId) (toks : List Token) :
    List.Forall₂ (WarnsOf file) (toks.filter (·.kind == .invalid)) (ofTokens file toks) := by
  unfold ofTokens
  rw [List.forall₂_map_right_iff, List.forall₂_same]
  exact fun tok _ => ⟨rfl, rfl, rfl, rfl⟩

namespace Token
open Utf8

/-! ## Where the scanner stands -/

/-- Where no class matches there is a byte of no character. -/
theorem strayLength_pos_of_unmatched {x : Bytes} (nonempty : x ≠ []) (noBreak : lineBreakLength x = 0)
    (noBlank : blankLength x = 0) (unmatched : (longestMatch x).2 = 0) : 0 < strayLength x := by
  cases found : decode? x with
  | none => exact strayLength_pos nonempty found
  | some c =>
    obtain ⟨cl, best⟩ := longestMatch_some found noBreak noBlank
    exact absurd unmatched (Nat.ne_of_gt best.isMatch.pos)

/-! ## Runs of bytes -/

theorem Stray.strayRun {u w v : Bytes} (h : Stray w v) (nonempty : w ≠ []) (fresh : Fresh u (w ++ v))
    (resumes : Resumes v) : StrayRun (u ++ (w ++ v)) u.length (u.length + w.length) := by
  have some := List.length_pos_iff.2 nonempty
  have first : decode? (w ++ v) = none := h 0 some
  refine ⟨by omega, ?_, ?_, ?_, ?_⟩
  · rw [← List.append_assoc, List.length_append, List.length_append]
    exact Nat.le_add_right _ _
  · intro n from' before
    obtain ⟨k, rfl⟩ := Nat.exists_eq_add_of_le from'
    have inside : k < w.length := Nat.lt_of_add_lt_add_left before
    have place : u.length + k = (u ++ w.take k).length := by
      rw [List.length_append, List.length_take_of_le (Nat.le_of_lt inside)]
    have split : u ++ (w ++ v) = (u ++ w.take k) ++ (w.drop k ++ v) := by
      rw [List.append_assoc, ← List.append_assoc (w.take k), List.take_append_drop]
    rw [place, split, startsAt_append, h k inside]
    rintro ⟨c, found⟩
    cases found
  · rcases fresh with rfl | ended | empty | ⟨c, found⟩
    · exact .inl rfl
    · exact .inr (endsAt_append.2 ended)
    · exact absurd (List.append_eq_nil_iff.1 empty).1 nonempty
    · rw [first] at found
      cases found
  · rw [← List.length_append, ← List.append_assoc]
    rcases resumes with rfl | found
    · exact .inl (by rw [List.append_nil])
    · exact .inr (startsAt_append.2 found)

/-- The kinds of literals that may have any bytes inside. -/
def IsQuoted (k : Kind) : Prop := k = .charLit ∨ k = .stringLit

/-- A run that starts in a token of no class is that token, and one that starts in a quoted literal ends there. -/
theorem ReadBefore.strayRun {tok : Token} {u v : Bytes} (h : ReadBefore tok v) (fresh : Fresh u (tok.text ++ v)) :
    (tok.kind = .invalid → StrayRun (u ++ (tok.text ++ v)) u.length (u.length + tok.text.length)) ∧
    ∀ a b, StrayRun (u ++ (tok.text ++ v)) a b → u.length ≤ a → a < u.length + tok.text.length →
      tok.kind = .invalid ∧ a = u.length ∧ b = u.length + tok.text.length ∨
      IsQuoted tok.kind ∧ b ≤ u.length + tok.text.length := by
  rcases h.text_cases with ⟨valid, characters⟩ | ⟨kind, quoted⟩ | ⟨kind, stray, resumes⟩
  · refine ⟨fun invalid => absurd invalid valid, fun a b run from' before => ?_⟩
    obtain ⟨k, rfl⟩ := Nat.exists_eq_add_of_le from'
    exact absurd run (characters.not_strayRun (Nat.lt_of_add_lt_add_left before))
  · refine ⟨fun invalid => ?_, fun a b run from' before => .inr ⟨kind, ?_⟩⟩
    · rcases kind with other | other <;> rw [invalid] at other <;> cases other
    · -- a character starts with the closing quote
      obtain ⟨quote, body, same, ascii⟩ := quoted
      rw [same] at run before ⊢
      have closing : StartsAt (u ++ (quote :: (body ++ [quote]) ++ v)) (u ++ quote :: body).length := by
        have found := (startsAt_append (u := u ++ quote :: body)).2 ⟨_, decode?_ascii ascii v⟩
        simpa using found
      refine Nat.le_of_not_lt fun behind => ?_
      simp only [List.length_append, List.length_cons, List.length_nil] at before behind closing
      exact run.stray _ (by omega) (by omega) closing
  · have own := stray.strayRun h.nonempty fresh resumes
    refine ⟨fun _ => own, fun a b run from' before => .inl ?_⟩
    exact ⟨kind, run.unique own from' before⟩

section Placed
variable {src : Bytes} {placed : List (Nat × Token)} (scanned : Scanned 0 src placed)
include scanned

theorem strayRun_of_mem {p : Nat × Token} (member : p ∈ placed) :
    (p.2.kind = .invalid → StrayRun src p.1 (p.1 + p.2.text.length)) ∧
    ∀ a b, StrayRun src a b → p.1 ≤ a → a < p.1 + p.2.text.length →
      p.2.kind = .invalid ∧ a = p.1 ∧ b = p.1 + p.2.text.length ∨
      IsQuoted p.2.kind ∧ b ≤ p.1 + p.2.text.length := by
  obtain ⟨_, u, v, split, place, read, fresh⟩ := scanned.stands [] rfl (.inl rfl) member
  rw [List.nil_append] at split
  rw [split, ← place]
  exact read.strayRun fresh

theorem apart_of_ne {p q : Nat × Token} (hp : p ∈ placed) (hq : q ∈ placed) (other : p ≠ q) :
    p.1 + p.2.text.length ≤ q.1 ∨ q.1 + q.2.text.length ≤ p.1 := by
  have symmetric : Std.Symm fun p q : Nat × Token =>
      p.1 + p.2.text.length ≤ q.1 ∨ q.1 + q.2.text.length ≤ p.1 := ⟨fun _ _ => Or.symm⟩
  have ordered : placed.Pairwise fun p q => p.1 + p.2.text.length ≤ q.1 ∨ q.1 + q.2.text.length ≤ p.1 :=
    scanned.pairwise.imp fun before => .inl before
  exact ordered.forall hp hq other

theorem exists_token_of_strayRun {a b : Nat} (run : StrayRun src a b) :
    ∃ p ∈ placed, p.1 ≤ a ∧ a < p.1 + p.2.text.length := by
  have inside : a < 0 + src.length := by
    rw [Nat.zero_add]
    exact Nat.lt_of_lt_of_le run.nonempty run.inside
  rcases scanned.locate [] rfl (Nat.zero_le a) inside with ⟨u, gap, v, split, trivia, from', before⟩ | token
  · rw [List.nil_append] at split
    obtain ⟨cs, rfl, _⟩ := trivia
    obtain ⟨k, rfl⟩ := Nat.exists_eq_add_of_le from'
    rw [split] at run
    exact absurd run (Encoded.not_strayRun ⟨cs, rfl⟩ (Nat.lt_of_add_lt_add_left before))
  · exact token

/-- Tokens of no class are the runs of bytes of no character that are not inside a quoted literal. -/
theorem invalid_iff_strayRun (a b : Nat) :
    (∃ tok, (a, tok) ∈ placed ∧ tok.kind = .invalid ∧ b = a + tok.text.length) ↔
      StrayRun src a b ∧ ¬∃ p ∈ placed, IsQuoted p.2.kind ∧ p.1 ≤ a ∧ b ≤ p.1 + p.2.text.length := by
  constructor
  · rintro ⟨tok, member, invalid, rfl⟩
    have run := (strayRun_of_mem scanned member).1 invalid
    refine ⟨run, ?_⟩
    rintro ⟨p, other, quoted, from', upto⟩
    have positive : a < a + tok.text.length := run.nonempty
    have different : (a, tok) ≠ p := by
      rintro rfl
      rcases quoted with kind | kind <;> rw [invalid] at kind <;> cases kind
    rcases apart_of_ne scanned member other different with before | behind
    · have before : a + tok.text.length ≤ p.1 := before
      omega
    · have behind : p.1 + p.2.text.length ≤ a := behind
      omega
  · rintro ⟨run, outside⟩
    obtain ⟨p, member, from', before⟩ := exists_token_of_strayRun scanned run
    rcases (strayRun_of_mem scanned member).2 a b run from' before with ⟨invalid, rfl, rfl⟩ | ⟨quoted, upto⟩
    · exact ⟨p.2, member, invalid, rfl⟩
    · exact absurd ⟨p, member, quoted, from', upto⟩ outside

theorem pairwise_invalid :
    placed.Pairwise fun p q => p.1 + p.2.text.length ≤ q.1 ∧
      (p.2.kind = .invalid → q.2.kind = .invalid → p.1 + p.2.text.length < q.1) := by
  refine scanned.pairwise.imp_of_mem fun {p q} hp hq before => ⟨before, fun first second => ?_⟩
  have run := (strayRun_of_mem scanned hp).1 first
  have next := (strayRun_of_mem scanned hq).1 second
  refine Nat.lt_of_le_of_ne before fun touch => ?_
  rw [touch] at run
  rcases run.back with ended | starts
  · exact absurd (Nat.lt_of_lt_of_le next.nonempty next.inside) (Nat.not_lt.2 (Nat.le_of_eq ended.symm))
  · exact next.stray _ (Nat.le_refl _) next.nonempty starts

theorem kind_ne_invalid_of_encoded (whole : Encoded src) {p : Nat × Token} (member : p ∈ placed) :
    p.2.kind ≠ .invalid := by
  intro invalid
  have run := (strayRun_of_mem scanned member).1 invalid
  have none := @Encoded.not_strayRun [] src [] whole p.1 (Nat.lt_of_lt_of_le run.nonempty run.inside)
  rw [List.nil_append, List.append_nil, List.length_nil, Nat.zero_add] at none
  exact none run

end Placed

/-- Tokens of no class are the runs of bytes that belong to no character, but for those inside quoted literals, and no
two of them touch. There is one warning for each, in order, and none else; where no class matches the scanner always
has such a byte in front; and a source of characters has neither. -/
theorem invalid_tokens_stray (src : Bytes) (file : FileId) :
    (∃ placed : List (Nat × Token), placed.map Prod.snd = tokenize src ∧ (∀ p ∈ placed, LiesAt src p.1 p.2) ∧
      placed.Pairwise (fun p q => p.1 + p.2.text.length ≤ q.1 ∧
        (p.2.kind = .invalid → q.2.kind = .invalid → p.1 + p.2.text.length < q.1)) ∧
      ∀ a b, (∃ tok, (a, tok) ∈ placed ∧ tok.kind = .invalid ∧ b = a + tok.text.length) ↔
        StrayRun src a b ∧ ¬∃ p ∈ placed, IsQuoted p.2.kind ∧ p.1 ≤ a ∧ b ≤ p.1 + p.2.text.length) ∧
    List.Forall₂ (Diagnostic.WarnsOf file) ((tokenize src).filter (·.kind == .invalid))
      (Diagnostic.ofTokens file (tokenize src)) ∧
    (∀ s : Scanner, s.skipTrivia.rest ≠ [] → (longestMatch s.skipTrivia.rest).2 = 0 →
      0 < strayLength s.skipTrivia.rest) ∧
    (isValid src = true → (∀ tok ∈ tokenize src, tok.kind ≠ .invalid) ∧
      Diagnostic.ofTokens file (tokenize src) = []) := by
  obtain ⟨placed, scanned, same⟩ := exists_scanned (.ofSource src)
  have scanned : Scanned 0 src placed := scanned
  refine ⟨⟨placed, same, ?_, pairwise_invalid scanned, invalid_iff_strayRun scanned⟩,
    Diagnostic.ofTokens_warns file _, ?_, ?_⟩
  · exact fun p member => (scanned.stands [] rfl (.inl rfl) member).1
  · intro s nonempty
    obtain ⟨noBreak, noBlank⟩ := s.skipTrivia_stops nonempty
    exact strayLength_pos_of_unmatched nonempty noBreak noBlank
  · intro valid
    have none : ∀ tok ∈ tokenize src, tok.kind ≠ .invalid := by
      rw [tokenize, ← same]
      exact List.forall_mem_map.2 fun p => kind_ne_invalid_of_encoded scanned (isValid_iff.1 valid)
    refine ⟨none, ?_⟩
    rw [Diagnostic.ofTokens, List.filter_eq_nil_iff.2 fun tok member => by simpa using none tok member, List.map_nil]

/-- A letter with an accent is a character and is not warned about; its first byte alone is none, and the scanner has a
byte of no character in front of it. -/
theorem accent_and_its_first_byte :
    isValid [0xC3, 0xA9] = true ∧ Diagnostic.ofTokens 0 (tokenize [0xC3, 0xA9]) = [] ∧
      (Scanner.ofSource [0xC3]).skipTrivia.rest ≠ [] ∧ (longestMatch (Scanner.ofSource [0xC3]).skipTrivia.rest).2 = 0 ∧
      0 < strayLength (Scanner.ofSource [0xC3]).skipTrivia.rest := by
  have valid : isValid [0xC3, 0xA9] = true := by decide +kernel
  have left : (Scanner.ofSource [0xC3]).skipTrivia.rest ≠ [] := by decide +kernel
  have unmatched : (longestMatch (Scanner.ofSource [0xC3]).skipTrivia.rest).2 = 0 := by decide +kernel
  obtain ⟨_, _, stray, silent⟩ := invalid_tokens_stray [0xC3, 0xA9] 0
  exact ⟨valid, (silent valid).2, left, unmatched, stray _ left unmatched⟩

end Token

end LetStack
