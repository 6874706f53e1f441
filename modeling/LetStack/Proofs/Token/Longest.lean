import LetStack.Proofs.Token.Number
import LetStack.Proofs.Token.Trivia

/-!
`longestMatch` finds the longest token that any class has at the start of a text, and of two equally long ones that of
the first class (`longestMatch_best`).
-/

namespace LetStack.Token

/-! ## Punctuation -/

variable {n : Nat} {k : Kind} {x : Bytes} {c : Char}

/-- Of results that tell where they were found, the search through decreasing places gives the furthest. -/
theorem findSome?_furthest {f : Nat → Option (Kind × Nat)} (placed : ∀ n found, f n = some found → found.2 = n)
    {places : List Nat} (decreasing : places.Pairwise (· > ·)) {found : Kind × Nat} (member : n ∈ places)
    (h : f n = some found) :
    ∃ furthest, places.findSome? f = some furthest ∧ found.2 ≤ furthest.2 ∧
      (found.2 = furthest.2 → found = furthest) := by
  induction places with
  | nil => cases member
  | cons place places ih =>
    obtain ⟨above, decreasing⟩ := List.pairwise_cons.1 decreasing
    rw [List.findSome?_cons]
    cases member with
    | head =>
      rw [h]
      exact ⟨found, rfl, Nat.le_refl _, fun _ => rfl⟩
    | tail _ member =>
      cases here : f place with
      | none => exact ih decreasing member
      | some furthest =>
        -- what is found on the way lies further, since the places decrease
        have further : found.2 < furthest.2 := by
          rw [placed n found h, placed place furthest here]
          exact above n member
        exact ⟨furthest, rfl, Nat.le_of_lt further, fun same => absurd same (Nat.ne_of_lt further)⟩

theorem mem_of_lookup {w : Bytes} {table : List (Bytes × Kind)} (h : table.lookup w = some k) : (w, k) ∈ table := by
  obtain ⟨before, after, rfl, _⟩ := List.lookup_eq_some_iff.1 h
  exact List.mem_append_right before List.mem_cons_self

theorem matchPunctuation?_matches {found : Kind × Nat} (h : matchPunctuation? x = some found) :
    Matches x .punctuation found.1 found.2 := by
  obtain ⟨n, _, here⟩ := List.exists_of_findSome?_eq_some h
  split at here
  · next fits =>
    obtain ⟨k, spelling, rfl⟩ := Option.map_eq_some_iff.1 here
    rw [List.length_take] at fits
    exact .of_take (by omega) (.punctuation (mem_of_lookup spelling))
  · cases here

theorem matchPunctuation?_longest (h : Matches x .punctuation k n) :
    ∃ found, matchPunctuation? x = some found ∧ n ≤ found.2 ∧ (n = found.2 → k = found.1) := by
  have short : ∀ entry ∈ Kind.punctuationTable,
      Kind.ofPunctuation? entry.1 = some entry.2 ∧ entry.1.length ∈ [3, 2, 1] := by decide
  cases h with
  | @spelled _ _ w text start =>
    cases text with
    | punctuation entry =>
      obtain ⟨spelling, place⟩ := short (w, k) entry
      have text : x.take w.length = w := (List.prefix_iff_eq_take.1 start).symm
      obtain ⟨found, searched, further, same⟩ := findSome?_furthest
        (f := fun n =>
          if (x.take n).length = n then (Kind.ofPunctuation? (x.take n)).map fun k => (k, n) else none)
        (fun n found here => by
          split at here
          · obtain ⟨_, _, rfl⟩ := Option.map_eq_some_iff.1 here
            rfl
          · cases here)
        (by decide) place (by rw [text, if_pos rfl, spelling]; rfl)
      exact ⟨found, searched, further, fun equal => congrArg Prod.fst (same equal)⟩

theorem best_punctuation {found : Kind × Nat} (h : matchPunctuation? x = some found) :
    Best x .punctuation found.1 found.2 := by
  refine .of_group (matchPunctuation?_matches h) fun cl k n lead other => ?_
  have : cl = .punctuation := by cases cl <;> first | rfl | cases lead
  subst this
  obtain ⟨found', searched, further, same⟩ := matchPunctuation?_longest other
  rw [h] at searched
  cases searched
  exact ⟨further, fun equal => ⟨Nat.le_refl _, fun _ => same equal⟩⟩

/-! ## Words and quoted literals -/

theorem isWordChar_of_isWordStart (h : isWordStart c = true) : isWordChar c = true :=
  ((Bool.and_eq_true _ _).mp h).2

theorem length_identifier {w : Bytes} (h : Spelled .identifier k w) (start : w <+: x) : w.length ≤ wordLength x := by
  cases h with
  | @identifier c cs first all =>
    obtain ⟨rest, rfl⟩ := start
    have found : Utf8.decode? (Utf8.ofChars (c :: cs) ++ rest) = some c := by
      rw [Utf8.ofChars_cons, List.append_assoc]
      exact Utf8.decode?_encode c _
    have inside : ∀ d ∈ c :: cs, isWordChar d = true := by
      rintro d (_ | ⟨_, member⟩)
      · exact isWordChar_of_isWordStart first
      · exact all d member
    unfold wordLength
    rw [found]
    dsimp only
    rw [if_pos first, Utf8.runLength_ofChars inside]
    exact Nat.le_add_right _ _

theorem identifier_take (found : Utf8.decode? x = some c) (first : isWordStart c = true) :
    Matches x .identifier .ident (wordLength x) ∧ wordLength x ≤ x.length := by
  have measured : wordLength x = Utf8.runLength isWordChar x := by
    unfold wordLength
    rw [found]
    exact if_pos first
  obtain ⟨rest, rfl⟩ := Utf8.encode_of_decode? found
  obtain ⟨cs, rest, rfl, all, length⟩ := Utf8.exists_run isWordChar rest
  have text : Spelled .identifier .ident (Utf8.ofChars (c :: cs)) := .identifier first all
  have size : wordLength (Utf8.encode c ++ (Utf8.ofChars cs ++ rest)) = (Utf8.ofChars (c :: cs)).length := by
    rw [measured, Utf8.runLength_encode, if_pos (isWordChar_of_isWordStart first), length, Utf8.ofChars_cons,
      List.length_append, Utf8.length_encode]
  rw [size, ← List.append_assoc]
  exact ⟨.spelled text (List.prefix_append _ rest), (List.prefix_append _ rest).length_le⟩

theorem matchQuoted_matches (h : 0 < (matchQuoted x).2) :
    ∃ cl : Class, cl.lead = .letter ∧ cl.rank = 1 ∧ Matches x cl (matchQuoted x).1 (matchQuoted x).2 ∧
      (x.head? = some 0x27 ∨ x.head? = some 0x22) := by
  unfold matchQuoted at h ⊢
  split at h
  · next char =>
    rw [if_pos char]
    exact ⟨.character, rfl, rfl, .character char, .inl (head_of_charLength char)⟩
  · next noChar =>
    rw [if_neg noChar]
    split at h
    · next string =>
      rw [if_pos string]
      exact ⟨.string, rfl, rfl, .string string, .inr (head_of_stringLength string)⟩
    · cases h

theorem matchQuoted_string (some : 0 < stringLength x) : matchQuoted x = (.stringLit, stringLength x) := by
  have noChar : ¬0 < charLength x := by
    intro char
    have head := head_of_charLength char
    rw [head_of_stringLength some] at head
    cases head
  rw [matchQuoted, if_neg noChar, if_pos some]

/-- How far the tokens that start with a letter reach, by their class. -/
theorem length_letter {cl : Class} (lead : cl.lead = .letter) (h : Matches x cl k n) :
    (cl = .word ∧ n ≤ wordLength x ∧ (x.take n, k) ∈ Kind.fixedWords) ∨
    (cl.rank = 1 ∧ matchQuoted x = (k, n)) ∨
    (cl = .identifier ∧ n ≤ wordLength x ∧ k = .ident) := by
  cases h with
  | spelled text start =>
    cases text with
    | word entry =>
      refine .inl ⟨rfl, length_identifier (word_letters entry).1 start, ?_⟩
      rwa [← List.prefix_iff_eq_take.1 start]
    | identifier first all => exact .inr (.inr ⟨rfl, length_identifier (.identifier first all) start, rfl⟩)
    | punctuation _ | integer _ | decimal _ _ _ | exponent _ _ _ _ => cases lead
  | character some => exact .inr (.inl ⟨rfl, if_pos some⟩)
  | string some => exact .inr (.inl ⟨rfl, matchQuoted_string some⟩)

/-- A word that is longer than a quoted literal is of its fixed kind, or else an identifier. -/
theorem best_word (found : Utf8.decode? x = some c) (first : isWordStart c = true)
    (longer : (matchQuoted x).2 < wordLength x) :
    ∃ cl, Best x cl ((Kind.ofWord? (x.take (wordLength x))).getD .ident) (wordLength x) := by
  have table : ∀ entry ∈ Kind.fixedWords, Kind.ofWord? entry.1 = some entry.2 := by decide
  obtain ⟨identifier, fits⟩ := identifier_take found first
  cases fixed : Kind.ofWord? (x.take (wordLength x)) with
  | some k =>
    have word : Matches x .word k (wordLength x) := .of_take fits (.word (mem_of_lookup fixed))
    refine ⟨.word, .of_group word fun cl' k' n' lead other => ?_⟩
    rcases length_letter lead other with ⟨rfl, short, entry⟩ | ⟨_, quoted⟩ | ⟨rfl, short, rfl⟩
    · refine ⟨short, fun same => ⟨Nat.le_refl _, fun _ => ?_⟩⟩
      rw [same] at entry
      exact Option.some.inj ((table _ entry).symm.trans fixed)
    · rw [quoted] at longer
      exact ⟨Nat.le_of_lt longer, fun same => absurd same (Nat.ne_of_lt longer)⟩
    · exact ⟨short, fun _ => ⟨by decide, fun same => by cases same⟩⟩
  | none =>
    refine ⟨.identifier, .of_group identifier fun cl' k' n' lead other => ?_⟩
    rcases length_letter lead other with ⟨rfl, short, entry⟩ | ⟨_, quoted⟩ | ⟨rfl, short, rfl⟩
    · refine ⟨short, fun same => ?_⟩
      rw [same] at entry
      cases fixed.symm.trans (table _ entry)
    · rw [quoted] at longer
      exact ⟨Nat.le_of_lt longer, fun same => absurd same (Nat.ne_of_lt longer)⟩
    · exact ⟨short, fun _ => ⟨Nat.le_refl _, fun _ => rfl⟩⟩

theorem best_quoted (h : 0 < (matchQuoted x).2) (longest : wordLength x ≤ (matchQuoted x).2) :
    ∃ cl, Best x cl (matchQuoted x).1 (matchQuoted x).2 := by
  obtain ⟨cl, letter, literal, found, quote⟩ := matchQuoted_matches h
  refine ⟨cl, .of_group found fun cl' k' n' lead other => ?_⟩
  rcases length_letter (lead.trans letter) other with ⟨rfl, short, entry⟩ | ⟨rank, quoted⟩ | ⟨rfl, short, rfl⟩
  · -- a fixed word has no quote in front
    have unquoted := (word_letters entry).2
    rw [List.head?_take, if_neg (Nat.ne_of_gt other.pos)] at unquoted
    exact absurd quote (not_or.2 unquoted)
  · rw [quoted]
    exact ⟨Nat.le_refl _, fun _ => ⟨Nat.le_of_eq (literal.trans rank.symm), fun _ => rfl⟩⟩
  · refine ⟨Nat.le_trans short longest, fun _ => ⟨?_, fun same => ?_⟩⟩
    · rw [literal]
      decide
    · rw [literal] at same
      cases same

/-! ## The longest match -/

theorem matchPunctuation?_mark {b : UInt8} (mark : Kind.isMark b = true) (rest : Bytes) :
    matchPunctuation? (b :: rest) ≠ none := by
  have table : Kind.markBytes.all (fun b => (Kind.ofPunctuation? [b]).isSome) = true := by decide
  obtain ⟨k, spelling⟩ := Option.isSome_iff_exists.1 (List.all_eq_true.1 table b (List.contains_iff_mem.1 mark))
  have text : Matches (b :: rest) .punctuation k 1 :=
    .spelled (.punctuation (mem_of_lookup spelling)) (List.prefix_append [b] rest)
  obtain ⟨found, searched, _⟩ := matchPunctuation?_longest text
  rw [searched]
  exact Option.some_ne_none found

/-- Between punctuation, digits, blanks and line breaks, only a character that starts a word is left. -/
theorem isWordStart_of_rest (found : Utf8.decode? x = some c) (noBreak : lineBreakLength x = 0)
    (noBlank : blankLength x = 0) (noMark : matchPunctuation? x = none) (noDigit : ¬x.head?.any isDecimalDigit = true) :
    isWordStart c = true := by
  have letter : leadOf c = .letter := by
    by_cases ascii : c.toNat < 128
    · obtain ⟨rest, rfl⟩ := Utf8.encode_of_decode? found
      rw [Utf8.encode_ascii ascii] at noMark noDigit
      have byte : (UInt8.ofNat c.toNat).toNat = c.toNat := Utf8.toNat_byte (by omega)
      have lead := @leadOf_ascii (UInt8.ofNat c.toNat) (by rw [byte]; exact ascii)
      rw [byte, Char.ofNat_toNat] at lead
      rw [lead, if_neg fun mark => matchPunctuation?_mark mark rest noMark]
      exact if_neg (by simpa using noDigit)
    · unfold leadOf
      rw [if_neg (by simp; omega), if_neg (by simp; omega)]
  exact isWordStart_iff.2
    ⟨letter, isBlank_of_blankLength found noBlank, isLineBreak_of_lineBreakLength found noBreak⟩

theorem longestMatch_none (none : Utf8.decode? x = none) : longestMatch x = (.invalid, 0) := by
  have missing (cl : Class) (k : Kind) (n : Nat) : ¬Matches x cl k n := by
    intro found
    obtain ⟨c, first, _⟩ := found.lead_eq
    rw [none] at first
    cases first
  unfold longestMatch
  split
  · next punctuation => exact absurd (matchPunctuation?_matches punctuation) (missing _ _ _)
  · split
    · next digit =>
      obtain ⟨cl, _, found⟩ := matchNumber_matches digit
      exact absurd found (missing _ _ _)
    · have noChar : ¬0 < charLength x := fun char => missing _ _ _ (.character char)
      have noString : ¬0 < stringLength x := fun string => missing _ _ _ (.string string)
      have noWord : wordLength x = 0 := by
        unfold wordLength
        rw [none]
      have noQuoted : matchQuoted x = (.invalid, 0) := by
        rw [matchQuoted, if_neg noChar, if_neg noString]
      dsimp only
      rw [noQuoted, noWord]
      rfl

theorem longestMatch_some (found : Utf8.decode? x = some c) (noBreak : lineBreakLength x = 0)
    (noBlank : blankLength x = 0) : ∃ cl, Best x cl (longestMatch x).1 (longestMatch x).2 := by
  unfold longestMatch
  split
  · next punctuation => exact ⟨_, best_punctuation punctuation⟩
  · next noMark =>
    split
    · next digit => exact best_number digit
    · next noDigit =>
      have first := isWordStart_of_rest found noBreak noBlank noMark noDigit
      have positive := (identifier_take found first).1.pos
      extract_lets quoted n
      split
      · next longer => exact best_word found first longer
      · next longest =>
        have longest := Nat.not_lt.1 longest
        exact best_quoted (Nat.lt_of_lt_of_le positive longest) longest

/-- Whatever a text starts with, if not a line break or a blank: the token that is read there is the
longest that any class has, of the class that comes first among the longest; and there is none exactly
where no class has any, which is where no character starts. -/
theorem longestMatch_best {x : Bytes} (noBreak : lineBreakLength x = 0) (noBlank : blankLength x = 0) :
    (longestMatch x ≠ (.invalid, 0) → ∃ cl, Best x cl (longestMatch x).1 (longestMatch x).2) ∧
    (longestMatch x = (.invalid, 0) ↔ ∀ cl k n, 0 < n → ¬Matches x cl k n) ∧
    (longestMatch x = (.invalid, 0) ↔ Utf8.decode? x = none) := by
  cases found : Utf8.decode? x with
  | none =>
    have missing := longestMatch_none found
    refine ⟨fun other => absurd missing other, ⟨fun _ cl k n _ here => ?_, fun _ => missing⟩,
      ⟨fun _ => rfl, fun _ => missing⟩⟩
    obtain ⟨c, first, _⟩ := here.lead_eq
    rw [found] at first
    cases first
  | some c =>
    obtain ⟨cl, best⟩ := longestMatch_some found noBreak noBlank
    have positive := best.isMatch.pos
    have other : longestMatch x ≠ (.invalid, 0) := by
      intro empty
      rw [empty] at positive
      cases positive
    refine ⟨fun _ => ⟨cl, best⟩, ⟨fun empty => absurd empty other, fun missing => ?_⟩,
      ⟨fun empty => absurd empty other, fun none => by cases none⟩⟩
    exact absurd best.isMatch (missing _ _ _ positive)

/-- In `'b'c;` the identifier goes on behind the second quote, and is longer than the literal. -/
theorem word_with_quotes_best :
    longestMatch [0x27, 0x62, 0x27, 0x63, 0x3B] = (.ident, 4) ∧ charLength [0x27, 0x62, 0x27, 0x63, 0x3B] = 3 ∧
      ∃ cl, Best [0x27, 0x62, 0x27, 0x63, 0x3B] cl .ident 4 := by
  have read : longestMatch [0x27, 0x62, 0x27, 0x63, 0x3B] = (.ident, 4) := by decide +kernel
  have best := (@longestMatch_best [0x27, 0x62, 0x27, 0x63, 0x3B] (by decide) (by decide)).1 (by rw [read]; decide)
  rw [read] at best
  exact ⟨read, by decide, best⟩

end LetStack.Token
