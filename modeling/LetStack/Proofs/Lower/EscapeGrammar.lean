import LetStack.Proofs.Lower.Escapes
import LetStack.Proofs.Lower.Integers

/-!
An escape is a backslash and one of seven bytes, or one to six hexadecimal digits between braces (`EscapeText`).
`Decodes` replaces each escape by its character; where that is impossible, one backslash is reached that starts no
escape (`StopsAt`), and `unescape` reports this one (`escapes_decoded_exactly`).
-/

namespace LetStack.Lower
open Token Utf8

/-! ## Escapes -/

/-- The bytes that make an escape behind a backslash, and what it stands for. -/
def shortEscapes : List (UInt8 × Char) :=
  [(0x6E, '\n'), (0x72, '\r'), (0x74, '\t'), (0x30, Char.ofNat 0), (0x5C, '\\'), (0x27, '\''), (0x22, '"')]

/-- An escape in writing, and the character it stands for. -/
inductive EscapeText : Bytes → Char → Prop
  | short {b : UInt8} {c : Char} : (b, c) ∈ shortEscapes → EscapeText [0x5C, b] c
  | number {hex : Bytes} {c : Char} : Digits isHexDigit hex → hex.length ≤ 6 → valueOf 16 hex = c.toNat →
      EscapeText (0x5C :: 0x75 :: 0x7B :: (hex ++ [0x7D])) c

variable {c : Char} {e x : Bytes} {i : Nat}

theorem EscapeText.exists_cons (h : EscapeText e c) : ∃ behind, e = 0x5C :: behind := by
  cases h with
  | short _ => exact ⟨_, rfl⟩
  | number _ _ _ => exact ⟨_, rfl⟩

theorem isDigitOf_of_readDigits {base n v : Nat} {ds : Bytes} (h : Integer.readDigits base n ds = .ok v) :
    ∀ b ∈ ds, IsDigitOf base b := by
  induction ds generalizing n with
  | nil => exact fun _ member => absurd member List.not_mem_nil
  | cons b ds ih =>
    rw [Integer.readDigits] at h
    split at h
    · cases h
    · next d value =>
      split at h
      · cases h
      · next small =>
        split at h
        · cases h
        · exact List.forall_mem_cons.2 ⟨⟨d, Nat.not_le.1 small, value⟩, ih h⟩

theorem isHexDigit_of_isDigitOf {b : UInt8} (h : IsDigitOf 16 b) : isHexDigit b = true := by
  have all : ∀ n < 256, ∀ d < 16, digitValue? (UInt8.ofNat n) = some d → isHexDigit (UInt8.ofNat n) = true := by
    decide +kernel
  obtain ⟨d, small, value⟩ := h
  have digit := all b.toNat b.toNat_lt d small
  rw [UInt8.ofNat_toNat] at digit
  exact digit value

theorem readUnsigned_hex_iff {hex : Bytes} {v : Nat} (fits : v < 0x10000000000000000) :
    Integer.readUnsigned hex 16 = .ok v ↔ Digits isHexDigit hex ∧ valueOf 16 hex = v := by
  have read (digits : Digits isHexDigit hex) :=
    Integer.readUnsigned_eq (by decide) (by decide) digits.nonempty fun b member =>
      isDigitOf_of_hexadecimal (digits.all b member)
  constructor
  · intro h
    have digits : Digits isHexDigit hex := by
      rw [Integer.readUnsigned] at h
      split at h
      · cases h
      · next some => exact ⟨some, fun b member => isHexDigit_of_isDigitOf (isDigitOf_of_readDigits h b member)⟩
    rw [read digits] at h
    split at h
    · exact ⟨digits, Except.ok.inj h⟩
    · cases h
  · rintro ⟨digits, rfl⟩
    rw [read digits, if_pos fits]

theorem takeWhile_hex {hex : Bytes} (digits : ∀ b ∈ hex, isHexDigit b = true) (rest : Bytes) :
    (hex ++ 0x7D :: rest).takeWhile (· != 0x7D) = hex := by
  have other : ∀ b ∈ hex, (b != 0x7D) = true := by
    intro b member
    refine bne_iff_ne.2 ?_
    rintro rfl
    exact absurd (digits _ member) (by decide)
  rw [List.takeWhile_append_of_pos other, List.takeWhile_cons_of_neg (by decide), List.append_nil]

theorem EscapeText.escapeAt_eq (h : EscapeText e c) (rest : Bytes) : escapeAt (e ++ rest) = .ok (e.length, c) := by
  cases h with
  | @short b c entry =>
    simp only [shortEscapes, List.mem_cons, Prod.mk.injEq, List.not_mem_nil, or_false] at entry
    rcases entry with ⟨rfl, rfl⟩ | ⟨rfl, rfl⟩ | ⟨rfl, rfl⟩ | ⟨rfl, rfl⟩ | ⟨rfl, rfl⟩ | ⟨rfl, rfl⟩ | ⟨rfl, rfl⟩ <;> rfl
  | @number hex c digits short value =>
    have valid : c.toNat < 0xD800 ∨ 0xDFFF < c.toNat ∧ c.toNat < 0x110000 := c.valid
    have some : hex.length ≠ 0 := fun none => digits.nonempty (List.length_eq_zero_iff.1 none)
    have read : Integer.readUnsigned hex 16 = .ok c.toNat := (readUnsigned_hex_iff (by omega)).2 ⟨digits, value⟩
    have braced : hex ++ [0x7D] ++ rest = hex ++ 0x7D :: rest := by rw [List.append_assoc]; rfl
    show escapeAt (0x5C :: 0x75 :: 0x7B :: (hex ++ [0x7D] ++ rest)) = _
    rw [braced, escapeAt, scalarOf]
    simp only [takeWhile_hex digits.all, read]
    rw [if_neg (by simp), if_neg (by omega), if_pos (by omega), Char.ofNat_toNat]
    simp

theorem escapeText_of_escapeAt {rest : Bytes} {n : Nat} (h : escapeAt (0x5C :: rest) = .ok (n, c)) :
    n ≤ rest.length + 1 ∧ EscapeText ((0x5C :: rest).take n) c := by
  unfold escapeAt at h
  split at h
  case h_8 digits same =>
    obtain ⟨_, rfl⟩ := List.cons.inj same
    extract_lets hex at h
    split at h
    case isTrue => cases h
    next longer =>
    unfold scalarOf at h
    split at h
    case isTrue => cases h
    next few =>
    split at h
    case h_2 => cases h
    next v read =>
    split at h
    case isFalse => cases h
    next valid =>
    obtain ⟨rfl, rfl⟩ := Prod.mk.inj (Except.ok.inj h)
    obtain ⟨tail, braced⟩ := exists_closing_brace longer
    change digits = hex ++ 0x7D :: tail at braced
    obtain ⟨written, value⟩ := (readUnsigned_hex_iff (by omega)).1 read
    have scalar : (Char.ofNat v).toNat = v := toNat_char (by unfold Nat.isValidChar; omega)
    have text : (0x5C :: 0x75 :: 0x7B :: digits).take (hex.length + 4) = 0x5C :: 0x75 :: 0x7B :: (hex ++ [0x7D]) := by
      show 0x5C :: 0x75 :: 0x7B :: digits.take (hex.length + 1) = _
      rw [braced, List.take_length_add_append]
      rfl
    rw [text]
    refine ⟨?_, .number written (by omega) (value.trans scalar.symm)⟩
    rw [braced]
    simp only [List.length_cons, List.length_append]
    omega
  case h_9 => cases h
  case h_10 => cases h
  all_goals
    -- an escape of two bytes
    next same =>
    cases h
    obtain ⟨_, rfl⟩ := List.cons.inj same
    exact ⟨Nat.le_add_left _ _, .short (by decide)⟩

/-- An escape starts the text. -/
def StartsEscape (x : Bytes) : Prop := ∃ e c, EscapeText e c ∧ e <+: x

theorem not_startsEscape_iff {rest : Bytes} :
    ¬StartsEscape (0x5C :: rest) ↔ ∃ n, escapeAt (0x5C :: rest) = .error n := by
  cases found : escapeAt (0x5C :: rest) with
  | error n =>
    refine iff_of_true ?_ ⟨n, rfl⟩
    rintro ⟨e, c, text, behind, same⟩
    rw [← same, text.escapeAt_eq] at found
    cases found
  | ok hit =>
    obtain ⟨n, c⟩ := hit
    refine iff_of_false (fun none => none ?_) (by rintro ⟨_, ⟨⟩⟩)
    exact ⟨_, c, (escapeText_of_escapeAt found).2, List.take_prefix _ _⟩

/-! ## Bodies -/

/-- What a body stands for: every byte but a backslash for itself, every escape for the bytes of its character. -/
inductive Decodes : Bytes → Bytes → Prop
  | nil : Decodes [] []
  | byte {b : UInt8} {x s : Bytes} : b ≠ 0x5C → Decodes x s → Decodes (b :: x) (b :: s)
  | escape {e x s : Bytes} {c : Char} : EscapeText e c → Decodes x s → Decodes (e ++ x) (encode c ++ s)

/-- A backslash where decoding stops: everything in front of it can be decoded, and it starts no escape. -/
structure StopsAt (body : Bytes) (i : Nat) : Prop where
  slash : body[i]? = some 0x5C
  before : ∃ s, Decodes (body.take i) s
  noEscape : ¬StartsEscape (body.drop i)

theorem decodes_self (plain : 0x5C ∉ x) : Decodes x x := by
  induction x with
  | nil => exact .nil
  | cons b x ih =>
    refine .byte ?_ (ih fun member => plain (List.mem_cons_of_mem b member))
    rintro rfl
    exact plain List.mem_cons_self

theorem Decodes.append {y s t : Bytes} (h : Decodes x s) (behind : Decodes y t) : Decodes (x ++ y) (s ++ t) := by
  induction h with
  | nil => exact behind
  | byte other _ ih => exact .byte other ih
  | escape text _ ih =>
    rw [List.append_assoc, List.append_assoc]
    exact .escape text ih

theorem EscapeText.decodes (h : EscapeText e c) : Decodes e (encode c) := by
  have alone := Decodes.escape h .nil
  rwa [List.append_nil, List.append_nil] at alone

theorem EscapeText.unescapeFrom_append (h : EscapeText e c) (offset : Nat) (rest : Bytes) :
    unescapeFrom offset (e ++ rest) = (unescapeFrom (offset + e.length) rest).map (encode c ++ ·) := by
  have found := h.escapeAt_eq rest
  have behind : (e ++ rest).drop e.length = rest := List.drop_left
  obtain ⟨tail, rfl⟩ := h.exists_cons
  rw [List.cons_append] at found behind ⊢
  rw [unescapeFrom_of_ok found, behind]

theorem Decodes.unescapeFrom_append {s : Bytes} (h : Decodes x s) (offset : Nat) (rest : Bytes) :
    unescapeFrom offset (x ++ rest) = (unescapeFrom (offset + x.length) rest).map (s ++ ·) := by
  induction h generalizing offset with
  | nil =>
    rw [List.nil_append, List.length_nil, Nat.add_zero]
    cases unescapeFrom offset rest <;> rfl
  | @byte b x s other _ ih =>
    rw [List.cons_append, unescapeFrom, if_neg other, ih, List.length_cons, Nat.add_assoc, Nat.add_comm 1]
    cases unescapeFrom (offset + (x.length + 1)) rest <;> rfl
  | @escape e x s c text _ ih =>
    rw [List.append_assoc, text.unescapeFrom_append, ih, List.length_append, Nat.add_assoc]
    cases unescapeFrom (offset + (e.length + x.length)) rest with
    | error _ => rfl
    | ok t => exact congrArg Except.ok (List.append_assoc _ _ _).symm

theorem Decodes.unescapeFrom_eq {s : Bytes} (h : Decodes x s) (offset : Nat) : unescapeFrom offset x = .ok s := by
  have whole := h.unescapeFrom_append offset []
  rw [List.append_nil, unescapeFrom] at whole
  rw [whole]
  exact congrArg Except.ok (List.append_nil s)

theorem escapeAt_inside (h : x[i]? = some 0x5C) : ∃ n, 0 < n ∧ i + n ≤ x.length ∧
    ((∃ c, escapeAt (x.drop i) = .ok (n, c)) ∨ escapeAt (x.drop i) = .error n) := by
  obtain ⟨inside, _⟩ := List.getElem?_eq_some_iff.1 h
  rw [drop_eq_cons h]
  have room : i + ((x.drop (i + 1)).length + 1) = x.length := by
    rw [List.length_drop]
    omega
  cases found : escapeAt (0x5C :: x.drop (i + 1)) with
  | error n =>
    exact ⟨n, escapeAt_error_pos found, room ▸ Nat.add_le_add_left (escapeAt_error_le found) i, .inr rfl⟩
  | ok hit =>
    obtain ⟨n, c⟩ := hit
    exact ⟨n, escapeAt_pos found, room ▸ Nat.add_le_add_left (escapeText_of_escapeAt found).1 i, .inl ⟨c, rfl⟩⟩

theorem StopsAt.append {w s : Bytes} (h : StopsAt x i) (front : Decodes w s) :
    StopsAt (w ++ x) (w.length + i) where
  slash := by rw [List.getElem?_append_right (Nat.le_add_right _ _), Nat.add_sub_cancel_left, h.slash]
  before := by
    obtain ⟨t, before⟩ := h.before
    rw [List.take_length_add_append]
    exact ⟨s ++ t, front.append before⟩
  noEscape := by
    rw [List.drop_length_add_append]
    exact h.noEscape

/-- Where decoding stops is reported, with some bytes of the body from there on. -/
theorem StopsAt.unescapeFrom_eq (h : StopsAt x i) (offset : Nat) :
    ∃ n, 0 < n ∧ i + n ≤ x.length ∧ unescapeFrom offset x = .error ⟨offset + i, (x.drop i).take n⟩ := by
  obtain ⟨s, front⟩ := h.before
  have stuck := h.noEscape
  obtain ⟨n, some, inside, ⟨c, found⟩ | found⟩ := escapeAt_inside h.slash
  · rw [drop_eq_cons h.slash] at stuck found
    exact absurd ⟨_, c, (escapeText_of_escapeAt found).2, List.take_prefix _ _⟩ stuck
  · refine ⟨n, some, inside, ?_⟩
    have size : (x.take i).length = i := List.length_take_of_le (Nat.le_trans (Nat.le_add_right i n) inside)
    have whole := front.unescapeFrom_append offset (x.drop i)
    rw [drop_eq_cons h.slash] at found whole ⊢
    rw [unescapeFrom_of_error found, ← drop_eq_cons h.slash, List.take_append_drop, size] at whole
    rwa [← drop_eq_cons h.slash]

/-- A body stands for something, or decoding it stops somewhere. -/
theorem decodes_or_stops (x : Bytes) : (∃ s, Decodes x s) ∨ ∃ i, StopsAt x i := by
  fun_induction unescapeFrom 0 x with
  | case1 => exact .inl ⟨[], .nil⟩
  | case2 offset rest n found => exact .inr ⟨0, rfl, ⟨[], .nil⟩, not_startsEscape_iff.2 ⟨n, found⟩⟩
  | case3 offset rest n c found ih =>
    have text := (escapeText_of_escapeAt found).2
    rw [← List.take_append_drop n (0x5C :: rest)]
    rcases ih with ⟨s, behind⟩ | ⟨i, stops⟩
    · exact .inl ⟨_, .escape text behind⟩
    · exact .inr ⟨_, stops.append text.decodes⟩
  | case4 offset b rest other ih =>
    rcases ih with ⟨s, behind⟩ | ⟨i, stops⟩
    · exact .inl ⟨_, .byte other behind⟩
    · exact .inr ⟨_, stops.append (.byte other .nil)⟩

theorem unescapeFrom_ok_iff {offset : Nat} {x s : Bytes} : unescapeFrom offset x = .ok s ↔ Decodes x s := by
  refine ⟨fun decoded => ?_, fun h => h.unescapeFrom_eq offset⟩
  rcases decodes_or_stops x with ⟨t, h⟩ | ⟨i, stops⟩
  · rw [h.unescapeFrom_eq offset] at decoded
    exact Except.ok.inj decoded ▸ h
  · obtain ⟨n, _, _, failed⟩ := stops.unescapeFrom_eq offset
    rw [failed] at decoded
    cases decoded

theorem StopsAt.unique {j : Nat} (hi : StopsAt x i) (hj : StopsAt x j) : i = j := by
  obtain ⟨_, _, _, first⟩ := hi.unescapeFrom_eq 0
  obtain ⟨_, _, _, second⟩ := hj.unescapeFrom_eq 0
  have same := congrArg BadEscape.offset (Except.error.inj (first.symm.trans second))
  exact Nat.add_left_cancel same

/-! ## Literals -/

theorem body_of_quoted (opening closing : UInt8) (body : Bytes) :
    ((opening :: (body ++ [closing])).drop 1).take ((opening :: (body ++ [closing])).length - 2) = body := by
  have size : (opening :: (body ++ [closing])).length - 2 = body.length := by simp
  rw [size, List.drop_succ_cons, List.drop_zero, List.take_left]

section
variable {body : Bytes} (opening closing : UInt8) (span : Span)

theorem unescape_of_ok {s : Bytes} (h : unescapeFrom 0 body = .ok s) :
    unescape (opening :: (body ++ [closing])) span = .ok s := by
  rw [unescape, if_neg (by simp), body_of_quoted, h]

theorem unescape_of_error {bad : BadEscape} (h : unescapeFrom 0 body = .error bad) :
    unescape (opening :: (body ++ [closing])) span =
      .error (.user .invalidEscape (escapeSpan span (bad.offset + 1) bad.text.length)
        ("unknown escape sequence `" ++ bad.text ++ "`")) := by
  rw [unescape, if_neg (by simp), body_of_quoted, h]

theorem unescape_ok_iff {s : Bytes} : unescape (opening :: (body ++ [closing])) span = .ok s ↔ Decodes body s := by
  rw [← @unescapeFrom_ok_iff 0]
  cases found : unescapeFrom 0 body with
  | ok t => rw [unescape_of_ok opening closing span found, Except.ok.injEq, Except.ok.injEq]
  | error bad =>
    rw [unescape_of_error opening closing span found]
    exact iff_of_false (by rintro ⟨⟩) (by rintro ⟨⟩)

end

/-- The text between the first and the last byte of a literal is decoded exactly if it stands for something, and then to
that; without a backslash this is the text itself. Any other text has a single backslash that is reached and starts no
escape, and what is reported is found there, some bytes from this backslash on. At every backslash decoding moves on by
some bytes of the text, so it never leaves the text and comes to its end. -/
theorem escapes_decoded_exactly (opening closing : UInt8) (body : Bytes) (span : Span) :
    (∀ s, unescape? (opening :: (body ++ [closing])) span = some (.ok s) ↔ Decodes body s) ∧
    (0x5C ∉ body → unescape? (opening :: (body ++ [closing])) span = some (.ok body)) ∧
    ((∀ s, ¬Decodes body s) → ∃ i n, StopsAt body i ∧ (∀ j, StopsAt body j → j = i) ∧
      0 < n ∧ i + n ≤ body.length ∧
      unescape? (opening :: (body ++ [closing])) span =
        some (.error (.user .invalidEscape (escapeSpan span (i + 1) n)
          ("unknown escape sequence `" ++ (body.drop i).take n ++ "`")))) ∧
    ∀ i, body[i]? = some 0x5C → ∃ n, 0 < n ∧ i + n ≤ body.length ∧
      ((∃ c, escapeAt? (body.drop i) = some (.ok (n, c))) ∨ escapeAt? (body.drop i) = some (.error n)) := by
  rw [unescape?_eq]
  simp only [Option.some.injEq]
  refine ⟨fun s => unescape_ok_iff opening closing span, fun plain => ?_, fun nothing => ?_, fun i slash => ?_⟩
  · exact (unescape_ok_iff opening closing span).2 (decodes_self plain)
  · obtain ⟨s, found⟩ | ⟨i, stops⟩ := decodes_or_stops body
    · exact absurd found (nothing s)
    obtain ⟨n, some, inside, failed⟩ := stops.unescapeFrom_eq 0
    refine ⟨i, n, stops, fun j other => other.unique stops, some, inside, ?_⟩
    have length : ((body.drop i).take n).length = n := by
      rw [List.length_take_of_le]
      rw [List.length_drop]
      exact Nat.le_sub_of_add_le' inside
    rw [unescape_of_error opening closing span failed]
    simp only [Nat.zero_add, length]
  · have same : escapeAt? (body.drop i) = some (escapeAt (body.drop i)) := by
      rw [drop_eq_cons slash]
      exact escapeAt?_eq _
    simp only [same, Option.some.injEq]
    exact escapeAt_inside slash

/-- Decoding `\\q\z` passes the second backslash, which is escaped by the first and would start no escape, and stops at
the third. -/
theorem escaped_backslash_is_passed :
    let body : Bytes := [0x5C, 0x5C, 0x71, 0x5C, 0x7A]
    ¬StartsEscape (body.drop 1) ∧ StopsAt body 3 ∧ ∃ n, unescape? (0x22 :: (body ++ [0x22])) {} =
      some (.error (.user .invalidEscape (escapeSpan {} 4 n)
        ("unknown escape sequence `" ++ (body.drop 3).take n ++ "`"))) := by
  intro body
  have stops : StopsAt body 3 :=
    ⟨rfl, ⟨_, .escape (.short (c := '\\') (by decide)) (.byte (by decide) .nil)⟩, not_startsEscape_iff.2 ⟨2, rfl⟩⟩
  obtain ⟨_, _, refused, _⟩ := escapes_decoded_exactly 0x22 0x22 body {}
  have nothing (s : Bytes) : ¬Decodes body s := by
    intro found
    obtain ⟨_, _, _, failed⟩ := stops.unescapeFrom_eq 0
    rw [found.unescapeFrom_eq 0] at failed
    cases failed
  obtain ⟨i, n, _, only, _, _, failed⟩ := refused nothing
  obtain rfl := only 3 stops
  exact ⟨not_startsEscape_iff.2 ⟨2, rfl⟩, stops, n, failed⟩

end LetStack.Lower
