import LetStack.Proofs.Text.Utf8

/-!
`isValid` holds exactly of texts of characters (`isValid_iff`). There is a boundary between characters on both sides
of an ASCII byte (`boundaries_ascii`), and none behind any other first byte of a character (`Boundary.succ_iff`).
-/

namespace LetStack.Utf8

/-! ## Texts of characters -/

/-- The text of some characters. -/
def Encoded (x : Bytes) : Prop := ∃ cs, x = ofChars cs

theorem Encoded.nil : Encoded [] := ⟨[], rfl⟩

theorem encoded_encode (c : Char) : Encoded (encode c) := ⟨[c], by simp⟩

variable {x v u : Bytes} {b : UInt8}

theorem Encoded.append {y : Bytes} (hx : Encoded x) (hy : Encoded y) : Encoded (x ++ y) := by
  obtain ⟨cs, rfl⟩ := hx
  obtain ⟨ds, rfl⟩ := hy
  exact ⟨cs ++ ds, (ofChars_append cs ds).symm⟩

theorem Encoded.of_append {y : Bytes} (hx : Encoded x) (h : Encoded (x ++ y)) : Encoded y := by
  obtain ⟨cs, rfl⟩ := hx
  obtain ⟨ds, split⟩ := h
  obtain ⟨es, _, rest⟩ := exists_of_ofChars_eq_append split.symm
  exact ⟨es, rest⟩

theorem encoded_ofString (s : String) : Encoded (Bytes.ofString s) := by
  obtain ⟨cs, same⟩ := s.isValidUTF8
  refine ⟨cs, ?_⟩
  show s.toByteArray.data.toList = cs.flatMap String.utf8EncodeChar
  rw [same, List.utf8Encode, List.toList_data_toByteArray]

theorem encoded_ascii (ascii : ∀ b ∈ x, b.toNat < 128) : Encoded x := by
  induction x with
  | nil => exact .nil
  | cons b x ih =>
    obtain ⟨first, rest⟩ := List.forall_mem_cons.1 ascii
    have char := encoded_encode (Char.ofNat b.toNat)
    rw [encode_one first] at char
    exact char.append (ih rest)

theorem pieces_encode (c : Char) (rest : Bytes) : pieces (encode c ++ rest) = .char c :: pieces rest := by
  have found := decode?_encode c rest
  have size := length_encode c
  obtain ⟨b, bytes, same⟩ := List.exists_cons_of_ne_nil (encode_ne_nil c)
  rw [same] at found size ⊢
  have behind : (bytes ++ rest).drop (c.utf8Size - 1) = rest := by
    rw [← size, List.length_cons, Nat.add_sub_cancel, List.drop_left]
  rw [List.cons_append] at found ⊢
  rw [pieces, found]
  simp only [behind]

theorem isValid_ofChars (cs : List Char) : isValid (ofChars cs) = true := by
  induction cs with
  | nil => rw [ofChars_nil, isValid, pieces, List.all_nil]
  | cons c cs ih =>
    rw [ofChars_cons, isValid, pieces_encode]
    exact ih

theorem encoded_of_isValid (x : Bytes) (h : isValid x = true) : Encoded x := by
  cases found : decode? x with
  | none =>
    cases x with
    | nil => exact .nil
    | cons b x =>
      rw [isValid, pieces, found] at h
      cases h
  | some c =>
    obtain ⟨rest, rfl⟩ := encode_of_decode? found
    rw [isValid, pieces_encode] at h
    exact (encoded_encode c).append (encoded_of_isValid rest h)
termination_by x.length
decreasing_by
  subst x
  have := List.length_pos_iff.2 (encode_ne_nil c)
  rw [List.length_append]
  omega

theorem isValid_iff : isValid x = true ↔ Encoded x := by
  constructor
  · exact encoded_of_isValid x
  · rintro ⟨cs, rfl⟩
    exact isValid_ofChars cs

/-! ## ASCII bytes -/

theorem encode_eq_of_mem_ascii {c : Char} (member : b ∈ encode c) (ascii : b.toNat < 128) : encode c = [b] := by
  have high {n : Nat} (least : 128 ≤ n) (greatest : n < 256) : b ≠ UInt8.ofNat n := by
    rintro rfl
    rw [toNat_byte greatest] at ascii
    omega
  have valid : c.val.toNat.isValidChar := c.valid
  revert member
  unfold encode String.utf8EncodeChar
  generalize c.val.toNat = v at valid ⊢
  unfold Nat.isValidChar at valid
  dsimp only
  -- one case for each number of bytes
  split
  · intro member
    rw [List.mem_singleton.1 member]
  split
  · intro member
    simp only [List.mem_cons, List.not_mem_nil, or_false] at member
    rcases member with same | same <;> exact absurd same (high (by omega) (by omega))
  split
  · intro member
    simp only [List.mem_cons, List.not_mem_nil, or_false] at member
    rcases member with same | same | same <;> exact absurd same (high (by omega) (by omega))
  · intro member
    simp only [List.mem_cons, List.not_mem_nil, or_false] at member
    rcases member with same | same | same | same <;> exact absurd same (high (by omega) (by omega))

theorem Encoded.ascii {b : UInt8} (h : Encoded [b]) : b.toNat < 128 := by
  have valid := isValid_iff.2 h
  rcases Nat.lt_or_ge b.toNat 128 with ascii | high
  · exact ascii
  have none : decode? [b] = none := by
    simp only [decode?, UInt8.lt_iff_toNat_lt, UInt8.reduceToNat]
    rw [if_neg (Nat.not_lt.2 high)]
    simp only [ite_self]
  rw [isValid, pieces, none] at valid
  cases valid

theorem Encoded.around_ascii (h : Encoded (u ++ b :: v)) (ascii : b.toNat < 128) : Encoded u ∧ Encoded v := by
  obtain ⟨cs, split⟩ := h
  induction cs generalizing u with
  | nil => exact absurd split (by simp)
  | cons c cs ih =>
    rw [ofChars_cons] at split
    rcases List.append_eq_append_iff.1 split with ⟨rest, char, behind⟩ | ⟨front, rfl, behind⟩
    · cases rest with
      | nil =>
        -- the byte comes right behind the first character
        rw [List.append_nil] at char
        obtain ⟨_, rest⟩ := @ih [] behind
        exact ⟨char ▸ encoded_encode c, rest⟩
      | cons b' rest =>
        obtain ⟨rfl, rfl⟩ := List.cons.inj behind
        -- the byte belongs to the first character, so it is that character
        have single : encode c = [b] := encode_eq_of_mem_ascii (char ▸ by simp) ascii
        obtain ⟨rfl, tail⟩ := List.append_eq_singleton_iff.1 (char.symm.trans single) |>.resolve_right (by simp)
        obtain rfl : rest = [] := (List.cons.inj tail).2
        exact ⟨.nil, cs, rfl⟩
    · obtain ⟨before, after⟩ := ih behind.symm
      exact ⟨(encoded_encode c).append before, after⟩

/-! ## Boundaries -/

/-- A place in a text between characters, in front of the first one or behind the last. -/
def Boundary (x : Bytes) (n : Nat) : Prop := ∃ cs ds, x = ofChars cs ++ ofChars ds ∧ n = (ofChars cs).length

theorem boundary_append (hu : Encoded u) (hv : Encoded v) : Boundary (u ++ v) u.length := by
  obtain ⟨cs, rfl⟩ := hu
  obtain ⟨ds, rfl⟩ := hv
  exact ⟨cs, ds, rfl, rfl⟩

theorem boundary_zero (h : Encoded x) : Boundary x 0 := boundary_append .nil h

theorem Boundary.encoded {n : Nat} (h : Boundary x n) : Encoded x := by
  obtain ⟨cs, ds, rfl, _⟩ := h
  exact Encoded.append ⟨cs, rfl⟩ ⟨ds, rfl⟩

theorem Boundary.add_iff {k : Nat} (h : Boundary (u ++ v) u.length) (inside : k ≤ v.length) :
    Boundary (u ++ v) (u.length + k) ↔ Encoded (v.take k) := by
  obtain ⟨cs, ds, split, length⟩ := h
  obtain ⟨rfl, rfl⟩ := List.append_inj split length
  constructor
  · rintro ⟨es, fs, split, length⟩
    have front : (ofChars cs ++ (ofChars ds).take k).length = (ofChars es).length := by
      rw [List.length_append, List.length_take_of_le inside, length]
    rw [← List.take_append_drop k (ofChars ds), ← List.append_assoc] at split
    exact Encoded.of_append ⟨cs, rfl⟩ ⟨es, (List.append_inj split front).1⟩
  · intro between
    have behind : Encoded ((ofChars ds).drop k) := between.of_append ⟨ds, List.take_append_drop k _⟩
    have boundary := boundary_append (Encoded.append ⟨cs, rfl⟩ between) behind
    rwa [List.append_assoc, List.take_append_drop, List.length_append, List.length_take_of_le inside] at boundary

theorem Boundary.succ_iff (h : Boundary (u ++ b :: v) u.length) :
    Boundary (u ++ b :: v) (u.length + 1) ↔ b.toNat < 128 := by
  rw [h.add_iff (Nat.le_add_left 1 v.length)]
  exact ⟨Encoded.ascii, fun ascii => encoded_ascii (List.forall_mem_singleton.2 ascii)⟩

theorem boundaries_ascii {u v : Bytes} {b : UInt8} (h : Encoded (u ++ b :: v)) (ascii : b.toNat < 128) :
    Boundary (u ++ b :: v) u.length ∧ Boundary (u ++ b :: v) (u.length + 1) := by
  have front := boundary_append (h.around_ascii ascii).1 ((h.around_ascii ascii).1.of_append h)
  exact ⟨front, front.succ_iff.2 ascii⟩

end LetStack.Utf8
