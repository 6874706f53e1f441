import LetStack.Text.Utf8

/-!
`decode?` finds a character exactly where a text starts with its encoding (`decode?_eq_some_iff`), so a text of
characters is read in one way only (`exists_of_ofChars_eq_append`).
-/

namespace LetStack.Utf8

/-! ## Bytes as numbers -/

theorem toNat_byte {n : Nat} (h : n < 256) : (UInt8.ofNat n).toNat = n := by
  rw [UInt8.toNat_ofNat']
  exact Nat.mod_eq_of_lt h

theorem byte_eq {b : UInt8} {n : Nat} (h : n = b.toNat) : UInt8.ofNat n = b := by
  rw [h, UInt8.ofNat_toNat]

variable {b a : UInt8} {c : Char} {x : Bytes}

theorem isContinuation_iff : isContinuation b = true ↔ 128 ≤ b.toNat ∧ b.toNat ≤ 191 := by
  simp [isContinuation, UInt8.le_iff_toNat_le]

theorem toNat_char {n : Nat} (h : n.isValidChar) : (Char.ofNat n).val.toNat = n := by
  rw [Char.ofNat, dif_pos h]
  rfl

/-! ## Characters -/

theorem decode?_encode (c : Char) (rest : Bytes) : decode? (encode c ++ rest) = some c := by
  have valid : c.val.toNat.isValidChar := c.valid
  have same : Char.ofNat c.val.toNat = c := Char.ofNat_toNat c
  unfold encode String.utf8EncodeChar
  generalize c.val.toNat = v at valid same ⊢
  unfold Nat.isValidChar at valid
  dsimp only
  -- one case for each number of bytes
  split
  · have ha := @toNat_byte v (by omega)
    simp only [List.cons_append, decode?, UInt8.lt_iff_toNat_lt, UInt8.reduceToNat, ha]
    rw [if_pos (by omega), same]
  split
  · have ha := @toNat_byte (v / 64 % 32 + 192) (by omega)
    have hb := @toNat_byte (v % 64 + 128) (by omega)
    have value : (v / 64 % 32 + 192) % 32 * 64 + (v % 64 + 128) % 64 = v := by omega
    simp only [List.cons_append, decode?, UInt8.lt_iff_toNat_lt, UInt8.reduceToNat, isContinuation_iff, ha, hb,
      value]
    rw [if_neg (by omega), if_neg (by omega), if_pos (by omega), if_pos (by omega), same]
  split
  · have ha := @toNat_byte (v / 4096 % 16 + 224) (by omega)
    have hb := @toNat_byte (v / 64 % 64 + 128) (by omega)
    have hc := @toNat_byte (v % 64 + 128) (by omega)
    have value : (v / 4096 % 16 + 224) % 16 * 4096 + (v / 64 % 64 + 128) % 64 * 64 +
        (v % 64 + 128) % 64 = v := by omega
    simp only [List.cons_append, decode?, UInt8.lt_iff_toNat_lt, UInt8.reduceToNat, isContinuation_iff, ha, hb,
      hc, value]
    rw [if_neg (by omega), if_neg (by omega), if_neg (by omega), if_pos (by omega), if_pos (by omega), same]
  · have ha := @toNat_byte (v / 262144 % 8 + 240) (by omega)
    have hb := @toNat_byte (v / 4096 % 64 + 128) (by omega)
    have hc := @toNat_byte (v / 64 % 64 + 128) (by omega)
    have hd := @toNat_byte (v % 64 + 128) (by omega)
    have value : (v / 262144 % 8 + 240) % 8 * 262144 + (v / 4096 % 64 + 128) % 64 * 4096 +
        (v / 64 % 64 + 128) % 64 * 64 + (v % 64 + 128) % 64 = v := by omega
    simp only [List.cons_append, decode?, UInt8.lt_iff_toNat_lt, UInt8.reduceToNat, isContinuation_iff, ha, hb,
      hc, hd, value]
    rw [if_neg (by omega), if_neg (by omega), if_neg (by omega), if_neg (by omega), if_pos (by omega),
      if_pos (by omega), same]

/-! The bytes of a character of a given length are those that its value was read from. -/

theorem encode_one (ha : a.toNat < 128) : encode (Char.ofNat a.toNat) = [a] := by
  simp only [encode, String.utf8EncodeChar, toNat_char (.inl (by omega : a.toNat < 55296))]
  rw [if_pos (by omega), byte_eq rfl]

theorem encode_two (ha : 194 ≤ a.toNat ∧ a.toNat < 224) (hb : 128 ≤ b.toNat ∧ b.toNat ≤ 191) :
    encode (Char.ofNat (a.toNat % 32 * 64 + b.toNat % 64)) = [a, b] := by
  simp only [encode, String.utf8EncodeChar,
    toNat_char (.inl (by omega : a.toNat % 32 * 64 + b.toNat % 64 < 55296))]
  rw [if_neg (by omega), if_pos (by omega), @byte_eq a _ (by omega), @byte_eq b _ (by omega)]

theorem encode_three {c : UInt8} (ha : 224 ≤ a.toNat ∧ a.toNat < 240) (hb : 128 ≤ b.toNat ∧ b.toNat ≤ 191)
    (hc : 128 ≤ c.toNat ∧ c.toNat ≤ 191) (long : 2048 ≤ a.toNat % 16 * 4096 + b.toNat % 64 * 64 + c.toNat % 64)
    (valid : (a.toNat % 16 * 4096 + b.toNat % 64 * 64 + c.toNat % 64).isValidChar) :
    encode (Char.ofNat (a.toNat % 16 * 4096 + b.toNat % 64 * 64 + c.toNat % 64)) = [a, b, c] := by
  simp only [encode, String.utf8EncodeChar, toNat_char valid]
  rw [if_neg (by omega), if_neg (by omega), if_pos (by omega), @byte_eq a _ (by omega),
    @byte_eq b _ (by omega), @byte_eq c _ (by omega)]

theorem encode_four {c d : UInt8} (ha : 240 ≤ a.toNat ∧ a.toNat < 245) (hb : 128 ≤ b.toNat ∧ b.toNat ≤ 191)
    (hc : 128 ≤ c.toNat ∧ c.toNat ≤ 191) (hd : 128 ≤ d.toNat ∧ d.toNat ≤ 191)
    (long : 65536 ≤ a.toNat % 8 * 262144 + b.toNat % 64 * 4096 + c.toNat % 64 * 64 + d.toNat % 64)
    (valid : (a.toNat % 8 * 262144 + b.toNat % 64 * 4096 + c.toNat % 64 * 64 + d.toNat % 64).isValidChar) :
    encode (Char.ofNat (a.toNat % 8 * 262144 + b.toNat % 64 * 4096 + c.toNat % 64 * 64 + d.toNat % 64)) =
      [a, b, c, d] := by
  simp only [encode, String.utf8EncodeChar, toNat_char valid]
  rw [if_neg (by omega), if_neg (by omega), if_neg (by omega), @byte_eq a _ (by omega),
    @byte_eq b _ (by omega), @byte_eq c _ (by omega), @byte_eq d _ (by omega)]

theorem encode_of_decode? (h : decode? x = some c) : ∃ rest, x = encode c ++ rest := by
  unfold decode? at h
  split at h
  · cases h
  next a rest =>
  simp only [UInt8.lt_iff_toNat_lt, UInt8.reduceToNat, isContinuation_iff] at h
  split at h
  · next one =>
    cases h
    exact ⟨rest, by rw [encode_one one]; rfl⟩
  split at h
  · cases h
  split at h
  · next two =>
    split at h
    · next b rest =>
      split at h
      · next hb =>
        cases h
        exact ⟨rest, by rw [encode_two ⟨by omega, two⟩ hb]; rfl⟩
      · cases h
    · cases h
  split at h
  · next three =>
    split at h
    · next b c rest =>
      split at h
      · next inside =>
        cases h
        obtain ⟨hb, hc, long, noSurrogate⟩ := inside
        have valid : (a.toNat % 16 * 4096 + b.toNat % 64 * 64 + c.toNat % 64).isValidChar := by
          unfold Nat.isValidChar
          omega
        exact ⟨rest, by rw [encode_three ⟨by omega, three⟩ hb hc long valid]; rfl⟩
      · cases h
    · cases h
  split at h
  · next four =>
    split at h
    · next b c d rest =>
      split at h
      · next inside =>
        cases h
        obtain ⟨hb, hc, hd, long, greatest⟩ := inside
        have valid : (a.toNat % 8 * 262144 + b.toNat % 64 * 4096 + c.toNat % 64 * 64 +
            d.toNat % 64).isValidChar := by
          unfold Nat.isValidChar
          omega
        exact ⟨rest, by rw [encode_four ⟨by omega, four⟩ hb hc hd long valid]; rfl⟩
      · cases h
    · cases h
  · cases h

theorem decode?_eq_some_iff : decode? x = some c ↔ ∃ rest, x = encode c ++ rest := by
  constructor
  · exact encode_of_decode?
  · rintro ⟨rest, rfl⟩
    exact decode?_encode c rest

theorem decode?_append (h : decode? x = some c) (rest : Bytes) : decode? (x ++ rest) = some c := by
  obtain ⟨behind, rfl⟩ := encode_of_decode? h
  rw [List.append_assoc]
  exact decode?_encode c _

theorem length_encode (c : Char) : (encode c).length = c.utf8Size := String.length_utf8EncodeChar c

theorem encode_ne_nil (c : Char) : encode c ≠ [] := by
  intro empty
  have size := length_encode c
  rw [empty] at size
  exact Nat.ne_of_lt c.utf8Size_pos size

theorem decode?_ascii (ascii : b.toNat < 128) (rest : Bytes) : decode? (b :: rest) = some (Char.ofNat b.toNat) :=
  if_pos (UInt8.lt_iff_toNat_lt.2 ascii)

theorem encode_ascii (ascii : c.toNat < 128) : encode c = [UInt8.ofNat c.toNat] := by
  unfold encode String.utf8EncodeChar
  exact if_pos (Nat.le_of_lt_succ ascii)

/-! ## Runs of characters -/

@[simp] theorem ofChars_nil : ofChars [] = [] := rfl

@[simp] theorem ofChars_cons (c : Char) (cs : List Char) : ofChars (c :: cs) = encode c ++ ofChars cs := rfl

@[simp] theorem ofChars_append (cs ds : List Char) : ofChars (cs ++ ds) = ofChars cs ++ ofChars ds :=
  List.flatMap_append

theorem exists_of_ofChars_eq_append {cs ds : List Char} {rest : Bytes} (h : ofChars cs = ofChars ds ++ rest) :
    ∃ es, cs = ds ++ es ∧ rest = ofChars es := by
  induction ds generalizing cs with
  | nil => exact ⟨cs, rfl, h.symm⟩
  | cons d ds ih =>
    rw [ofChars_cons, List.append_assoc] at h
    -- a text starts with one character only, so the first ones agree
    have first : decode? (ofChars cs) = some d := decode?_eq_some_iff.2 ⟨_, h⟩
    cases cs with
    | nil => cases first
    | cons c cs =>
      rw [ofChars_cons, decode?_encode] at first
      cases first
      obtain ⟨es, rfl, rest_eq⟩ := ih (List.append_cancel_left h)
      exact ⟨es, rfl, rest_eq⟩

theorem runLength_encode (p : Char → Bool) (c : Char) (rest : Bytes) :
    runLength p (encode c ++ rest) = if p c then c.utf8Size + runLength p rest else 0 := by
  have found := decode?_encode c rest
  have size := length_encode c
  have some := encode_ne_nil c
  revert found size some
  cases encode c with
  | nil => intro _ _ some; exact absurd rfl some
  | cons b bytes =>
    intro found size _
    -- the run goes on behind the bytes that follow the first one of the character
    have behind : (bytes ++ rest).drop (c.utf8Size - 1) = rest := by
      rw [← size, List.length_cons, Nat.add_sub_cancel, List.drop_left]
    rw [List.cons_append] at found ⊢
    rw [runLength, found]
    simp only [behind]

theorem runLength_ofChars {p : Char → Bool} {cs : List Char} (all : ∀ c ∈ cs, p c = true) (rest : Bytes) :
    runLength p (ofChars cs ++ rest) = (ofChars cs).length + runLength p rest := by
  induction cs with
  | nil => simp
  | cons c cs ih =>
    rw [ofChars_cons, List.append_assoc, runLength_encode, if_pos (all c List.mem_cons_self),
      ih fun d member => all d (List.mem_cons_of_mem c member), List.length_append, length_encode, Nat.add_assoc]

theorem runLength_of_decode?_none (p : Char → Bool) (none : decode? x = none) : runLength p x = 0 := by
  cases x with
  | nil => rw [runLength]
  | cons b x => rw [runLength, none]

theorem exists_run (p : Char → Bool) (x : Bytes) :
    ∃ cs rest, x = ofChars cs ++ rest ∧ (∀ c ∈ cs, p c = true) ∧ runLength p x = (ofChars cs).length := by
  cases found : decode? x with
  | none => exact ⟨[], x, rfl, by simp, runLength_of_decode?_none p found⟩
  | some c =>
    obtain ⟨rest, rfl⟩ := encode_of_decode? found
    rw [runLength_encode]
    split
    · next holds =>
      obtain ⟨cs, rest, rfl, all, length⟩ := exists_run p rest
      refine ⟨c :: cs, rest, by simp, ?_, ?_⟩
      · rintro d (_ | ⟨_, member⟩)
        · exact holds
        · exact all d member
      · rw [length, ofChars_cons, List.length_append, length_encode]
    · exact ⟨[], _, rfl, by simp, rfl⟩
termination_by x.length
decreasing_by
  subst x
  have := List.length_pos_iff.2 (encode_ne_nil c)
  rw [List.length_append]
  omega

end LetStack.Utf8
