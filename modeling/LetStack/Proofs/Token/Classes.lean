import LetStack.Proofs.Text.Utf8
import LetStack.Proofs.Token.Text

/-!
A class of tokens is a set of texts and matches where a text starts with one of them. The first character decides
between three groups of classes (`Matches.lead_eq`), so a token is compared with those of its group only
(`Best.of_group`).
-/

namespace LetStack.Token

/-! ## Classes -/

inductive Class where
  | punctuation | word | integer | decimal | exponent | character | string | identifier
  deriving DecidableEq, Repr

/-- The order of classes with an equally long match: what is fixed comes first, then literals, then
identifiers. -/
def Class.rank : Class → Nat
  | punctuation | word => 0
  | integer | decimal | exponent | character | string => 1
  | identifier => 2

/-- The texts of a class, each with the kind of its token. Quoted literals are not among them: how far
one reaches depends on what follows. -/
inductive Spelled : Class → Kind → Bytes → Prop
  | punctuation {w : Bytes} {k : Kind} : (w, k) ∈ Kind.punctuationTable → Spelled .punctuation k w
  | word {w : Bytes} {k : Kind} : (w, k) ∈ Kind.fixedWords → Spelled .word k w
  | integer {w ds : Bytes} {base : Nat} : IntegerText w base ds → Spelled .integer .intLit w
  | decimal {whole fraction : Bytes} : Digits isDecimalDigit whole → FractionText fraction → fraction ≠ [] →
      Spelled .decimal .decimalLit (whole ++ fraction)
  | exponent {whole fraction exponent : Bytes} : Digits isDecimalDigit whole → FractionText fraction →
      ExponentText exponent → exponent ≠ [] → Spelled .exponent .exponentLit (whole ++ (fraction ++ exponent))
  | identifier {c : Char} {cs : List Char} : isWordStart c = true → (∀ d ∈ cs, isWordChar d = true) →
      Spelled .identifier .ident (Utf8.ofChars (c :: cs))

/-- The tokens that a class has at the start of a text: their kinds and lengths. -/
inductive Matches (x : Bytes) : Class → Kind → Nat → Prop
  | spelled {cl : Class} {k : Kind} {w : Bytes} : Spelled cl k w → w <+: x → Matches x cl k w.length
  | character : 0 < charLength x → Matches x .character .charLit (charLength x)
  | string : 0 < stringLength x → Matches x .string .stringLit (stringLength x)

/-- A token at the start of a text that no other one displaces. -/
structure Best (x : Bytes) (cl : Class) (k : Kind) (n : Nat) : Prop where
  isMatch : Matches x cl k n
  longest : ∀ cl' k' n', Matches x cl' k' n' → n' ≤ n
  first : ∀ cl' k', Matches x cl' k' n → cl.rank ≤ cl'.rank
  unique : ∀ cl' k', Matches x cl' k' n → cl'.rank = cl.rank → k' = k

variable {n : Nat} {k : Kind} {cl : Class} {x w : Bytes}

theorem Matches.of_take (fits : n ≤ x.length) (h : Spelled cl k (x.take n)) : Matches x cl k n := by
  have found := Matches.spelled h (List.take_prefix n x)
  rwa [List.length_take_of_le fits] at found

/-! ## First characters -/

/-- The groups of characters that tokens start with. -/
inductive Lead where
  | mark | digit | letter
  deriving DecidableEq, Repr

def leadOf (c : Char) : Lead :=
  if c.toNat < 0x80 && Kind.isMark (UInt8.ofNat c.toNat) then .mark
  else if 0x30 ≤ c.toNat && c.toNat ≤ 0x39 then .digit
  else .letter

def Class.lead : Class → Lead
  | punctuation => .mark
  | integer | decimal | exponent => .digit
  | word | character | string | identifier => .letter

theorem leadOf_ascii {b : UInt8} (ascii : b.toNat < 128) :
    leadOf (Char.ofNat b.toNat) =
      if Kind.isMark b then .mark else if isDecimalDigit b then .digit else .letter := by
  have value : (Char.ofNat b.toNat).toNat = b.toNat := Utf8.toNat_char (.inl (by omega))
  simp only [leadOf, value, UInt8.ofNat_toNat, ascii, decide_true, Bool.true_and, isDecimalDigit,
    UInt8.le_iff_toNat_le, UInt8.reduceToNat]

theorem isWordStart_iff {c : Char} :
    isWordStart c = true ↔ leadOf c = .letter ∧ isBlank c = false ∧ isLineBreak c = false := by
  unfold isWordStart isWordChar leadOf
  generalize (decide (c.toNat < 0x80) && Kind.isMark (UInt8.ofNat c.toNat)) = mark
  generalize (decide (0x30 ≤ c.toNat) && decide (c.toNat ≤ 0x39)) = digit
  cases mark <;> cases digit <;> simp

theorem head_punctuation (h : (w, k) ∈ Kind.punctuationTable) :
    ∃ b rest, w = b :: rest ∧ Kind.isMark b = true ∧ b.toNat < 128 := by
  have marked : ∀ entry ∈ Kind.punctuationTable,
      (entry.1.head?.any fun b => Kind.isMark b && b.toNat < 128) = true := by decide
  have marked := marked (w, k) h
  cases w with
  | nil => cases marked
  | cons b rest => exact ⟨b, rest, rfl, by simpa using marked⟩

theorem isMark_of_isDecimalDigit {b : UInt8} (h : isDecimalDigit b = true) : Kind.isMark b = false := by
  have marks : Kind.markBytes.all (fun mark => !isDecimalDigit mark) = true := by decide
  cases mark : Kind.isMark b with
  | false => rfl
  | true =>
    have other := List.all_eq_true.1 marks b (List.contains_iff_mem.1 mark)
    rw [h] at other
    cases other

theorem digits_zero : Digits isDecimalDigit [0x30] :=
  ⟨List.cons_ne_nil _ _, List.forall_mem_singleton.2 rfl⟩

theorem lead_digits {w rest : Bytes} (h : Digits isDecimalDigit w) :
    ∃ c, Utf8.decode? (w ++ rest) = some c ∧ leadOf c = .digit := by
  cases w with
  | nil => exact absurd rfl h.nonempty
  | cons b w =>
    have digit := h.all b List.mem_cons_self
    have ascii : b.toNat < 128 := by
      simp only [isDecimalDigit, Bool.and_eq_true, decide_eq_true_eq, UInt8.le_iff_toNat_le,
        UInt8.reduceToNat] at digit
      omega
    refine ⟨_, Utf8.decode?_ascii ascii _, ?_⟩
    rw [leadOf_ascii ascii, isMark_of_isDecimalDigit digit, digit]
    rfl

theorem word_letters (h : (w, k) ∈ Kind.fixedWords) :
    Spelled .identifier .ident w ∧ w.head? ≠ some 0x27 ∧ w.head? ≠ some 0x22 := by
  have words : ∀ entry ∈ Kind.fixedWords,
      (match entry.1.map fun b => Char.ofNat b.toNat with
        | [] => false
        | c :: cs => isWordStart c && cs.all isWordChar && Utf8.ofChars (c :: cs) == entry.1) = true ∧
      entry.1.head? ≠ some 0x27 ∧ entry.1.head? ≠ some 0x22 := by decide
  obtain ⟨letters, unquoted⟩ := words (w, k) h
  refine ⟨?_, unquoted⟩
  split at letters
  · cases letters
  · next c cs _ =>
    simp only [Bool.and_eq_true, List.all_eq_true, beq_iff_eq] at letters
    rw [← letters.2]
    exact .identifier letters.1.1 letters.1.2

/-- The first character of a text tells the group of its class. -/
theorem Spelled.lead_eq (h : Spelled cl k w) (rest : Bytes) :
    ∃ c, Utf8.decode? (w ++ rest) = some c ∧ leadOf c = cl.lead := by
  -- fixed words are identifiers by their letters, so the two classes start alike
  have letters {k : Kind} {w : Bytes} (h : Spelled .identifier k w) :
      ∃ c, Utf8.decode? (w ++ rest) = some c ∧ leadOf c = .letter := by
    cases h with
    | @identifier c cs start _ =>
      refine ⟨c, ?_, (isWordStart_iff.1 start).1⟩
      rw [Utf8.ofChars_cons, List.append_assoc]
      exact Utf8.decode?_encode c _
  cases h with
  | punctuation entry =>
    obtain ⟨b, tail, rfl, mark, ascii⟩ := head_punctuation entry
    refine ⟨_, Utf8.decode?_ascii ascii _, ?_⟩
    rw [leadOf_ascii ascii, mark]
    rfl
  | word entry => exact letters (word_letters entry).1
  | integer text =>
    cases text with
    | decimal digits => exact lead_digits digits
    | binary _ | octal _ | hexadecimal _ => exact @lead_digits [0x30] _ digits_zero
  | decimal whole _ _ | exponent whole _ _ _ =>
    rw [List.append_assoc]
    exact lead_digits whole
  | identifier start all => exact letters (.identifier start all)

theorem head_of_charLength (h : 0 < charLength x) : x.head? = some 0x27 := by
  unfold charLength at h
  split at h
  · rfl
  · cases h

theorem head_of_stringLength (h : 0 < stringLength x) : x.head? = some 0x22 := by
  unfold stringLength at h
  split at h
  · rfl
  · cases h

/-- All tokens at the start of a text are of one group, that of its first character. -/
theorem Matches.lead_eq (h : Matches x cl k n) : ∃ c, Utf8.decode? x = some c ∧ leadOf c = cl.lead := by
  have quoted {b : UInt8} (head : x.head? = some b) (ascii : b.toNat < 128)
      (lead : leadOf (Char.ofNat b.toNat) = .letter) : ∃ c, Utf8.decode? x = some c ∧ leadOf c = .letter := by
    obtain ⟨rest, rfl⟩ := List.head?_eq_some_iff.1 head
    exact ⟨_, Utf8.decode?_ascii ascii rest, lead⟩
  cases h with
  | spelled text start =>
    obtain ⟨rest, rfl⟩ := start
    exact text.lead_eq rest
  | character some => exact quoted (head_of_charLength some) (by decide) (by decide)
  | string some => exact quoted (head_of_stringLength some) (by decide) (by decide)

theorem Matches.pos (h : Matches x cl k n) : 0 < n := by
  cases h with
  | @spelled _ _ w text start =>
    obtain ⟨c, found, _⟩ := text.lead_eq []
    cases w with
    | nil => cases found
    | cons b w => exact Nat.succ_pos _
  | character some | string some => exact some

/-- A token displaces all others if it displaces those of its group. -/
theorem Best.of_group (h : Matches x cl k n)
    (displaces : ∀ cl' k' n', cl'.lead = cl.lead → Matches x cl' k' n' →
      n' ≤ n ∧ (n' = n → cl.rank ≤ cl'.rank ∧ (cl'.rank = cl.rank → k' = k))) :
    Best x cl k n := by
  have group {cl' : Class} {k' : Kind} {n' : Nat} (h' : Matches x cl' k' n') : cl'.lead = cl.lead := by
    obtain ⟨c, first, lead⟩ := h.lead_eq
    obtain ⟨c', first', lead'⟩ := h'.lead_eq
    rw [first] at first'
    cases first'
    exact lead'.symm.trans lead
  exact
    { isMatch := h
      longest := fun cl' k' n' h' => (displaces cl' k' n' (group h') h').1
      first := fun cl' k' h' => ((displaces cl' k' n (group h') h').2 rfl).1
      unique := fun cl' k' h' => ((displaces cl' k' n (group h') h').2 rfl).2 }

end LetStack.Token
