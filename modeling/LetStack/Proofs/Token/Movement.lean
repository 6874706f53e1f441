import Mathlib.Data.UInt
import LetStack.Token.Cursor

/-!
`Cursor.advance` and `peekAt?` add a distance to the offset in 32 bits. As long as the sum fits they go that far or to
the limit. Otherwise `advance` goes back and `peekAt?` gives a byte that was passed, and this is the only way to go
wrong (`offset_le_advance_iff`, `advance_exact_iff`, `peekAt?_past_iff`).
-/

namespace LetStack.Cursor

/-- The cursor has not passed its limit, and the limit lies inside the bytes. -/
structure Placed (c : Cursor) : Prop where
  offset_le : c.offset ≤ c.limit
  limit_le : c.limit.toNat ≤ c.src.size

variable {c : Cursor} {n : UInt32}

/-! ## The offset further on -/

theorem toNat_further_of_fits (fits : c.offset.toNat + n.toNat < UInt32.size) :
    (c.offset + n).toNat = c.offset.toNat + n.toNat := by
  rw [UInt32.toNat_add, Nat.mod_eq_of_lt fits]

/-- A sum that wraps lies in front of the cursor, by what the distance lacks to the number of words. -/
theorem toNat_further_of_wraps (wraps : UInt32.size ≤ c.offset.toNat + n.toNat) :
    (c.offset + n).toNat = c.offset.toNat - (UInt32.size - n.toNat) := by
  have offset := c.offset.toNat_lt_size
  have distance := n.toNat_lt_size
  have back : c.offset.toNat + n.toNat - UInt32.size = c.offset.toNat - (UInt32.size - n.toNat) := by omega
  rw [UInt32.toNat_add, Nat.mod_eq_sub_mod wraps, back]
  exact Nat.mod_eq_of_lt (by omega)

theorem further_lt_of_wraps (wraps : UInt32.size ≤ c.offset.toNat + n.toNat) : c.offset + n < c.offset := by
  have distance := n.toNat_lt_size
  rw [UInt32.lt_iff_toNat_lt, toNat_further_of_wraps wraps]
  omega

theorem Placed.further_lt_limit (h : c.Placed) (wraps : UInt32.size ≤ c.offset.toNat + n.toNat) :
    c.offset + n < c.limit :=
  UInt32.lt_of_lt_of_le (further_lt_of_wraps wraps) h.offset_le

/-! ## Moving on -/

theorem toNat_offset_advance (c : Cursor) (n : UInt32) :
    (c.advance n).offset.toNat = min (c.offset + n).toNat c.limit.toNat :=
  UInt32.toNat_min ..

theorem Placed.advance (h : c.Placed) (n : UInt32) : (c.advance n).Placed where
  offset_le := by
    rw [UInt32.le_iff_toNat_le, toNat_offset_advance]
    exact Nat.min_le_right ..
  limit_le := h.limit_le

theorem toNat_offset_advance_of_fits (fits : c.offset.toNat + n.toNat < UInt32.size) :
    (c.advance n).offset.toNat = min (c.offset.toNat + n.toNat) c.limit.toNat := by
  rw [toNat_offset_advance, toNat_further_of_fits fits]

theorem Placed.toNat_offset_advance_of_wraps (h : c.Placed) (wraps : UInt32.size ≤ c.offset.toNat + n.toNat) :
    (c.advance n).offset.toNat = c.offset.toNat - (UInt32.size - n.toNat) := by
  have before := UInt32.lt_iff_toNat_lt.1 (h.further_lt_limit wraps)
  rw [toNat_offset_advance, Nat.min_eq_left (Nat.le_of_lt before), toNat_further_of_wraps wraps]

theorem Placed.offset_le_advance_iff (h : c.Placed) :
    c.offset ≤ (c.advance n).offset ↔ c.offset.toNat + n.toNat < UInt32.size := by
  have before := UInt32.le_iff_toNat_le.1 h.offset_le
  rw [UInt32.le_iff_toNat_le]
  constructor
  · intro forward
    by_contra wraps
    have back := UInt32.lt_iff_toNat_lt.1 (further_lt_of_wraps (Nat.le_of_not_lt wraps))
    rw [toNat_offset_advance] at forward
    omega
  · intro fits
    rw [toNat_offset_advance_of_fits fits]
    omega

theorem Placed.advance_exact_iff (h : c.Placed) :
    (c.advance n).offset.toNat = min (c.offset.toNat + n.toNat) c.limit.toNat ↔
      c.offset.toNat + n.toNat < UInt32.size := by
  refine ⟨fun exact => ?_, toNat_offset_advance_of_fits⟩
  -- the exact place is not in front of the cursor
  have before := UInt32.le_iff_toNat_le.1 h.offset_le
  refine h.offset_le_advance_iff.1 (UInt32.le_iff_toNat_le.2 ?_)
  omega

/-! ## Looking ahead -/

theorem Placed.peekAt?_of_lt (h : c.Placed) (before : c.offset + n < c.limit) :
    ∃ b, c.src[(c.offset + n).toNat]? = some b ∧ c.peekAt? n = some (b, true) := by
  have inside : (c.offset + n).toNat < c.src.size :=
    Nat.lt_of_lt_of_le (UInt32.lt_iff_toNat_lt.1 before) h.limit_le
  have found := Array.getElem?_eq_getElem inside
  refine ⟨_, found, ?_⟩
  rw [peekAt?, if_neg (UInt32.not_le.2 before), byteAt?, found]
  rfl

/-- The byte ahead is seen as far as the limit. No sum wraps there. -/
theorem Placed.peekAt?_ahead (h : c.Placed) (ahead : n.toNat < c.limit.toNat - c.offset.toNat) :
    ∃ b, c.src[c.offset.toNat + n.toNat]? = some b ∧ c.peekAt? n = some (b, true) := by
  have limit := c.limit.toNat_lt_size
  have place := toNat_further_of_fits (c := c) (n := n) (by omega)
  have before : c.offset + n < c.limit := by
    rw [UInt32.lt_iff_toNat_lt, place]
    omega
  exact place ▸ h.peekAt?_of_lt before

theorem Placed.peekAt?_past_iff (h : c.Placed) (past : c.limit.toNat - c.offset.toNat ≤ n.toNat) :
    c.peekAt? n = some (0, false) ↔ c.offset.toNat + n.toNat < UInt32.size := by
  constructor
  · intro nothing
    by_contra wraps
    obtain ⟨b, -, seen⟩ := h.peekAt?_of_lt (h.further_lt_limit (Nat.le_of_not_lt wraps))
    rw [nothing] at seen
    cases seen
  · intro fits
    refine if_pos ?_
    rw [UInt32.le_iff_toNat_le, toNat_further_of_fits fits]
    omega

/-- A cursor inside its bytes stays there wherever it moves. Unless the sum of offset and distance wraps, a move ends at
the exact sum or at the limit, so it does not go back, and looking ahead gives the byte at the distance if that lies
before the limit and nothing otherwise. If the sum wraps, the cursor goes back by what the distance lacks to the number
of words, and the byte there is the one that is seen. -/
theorem moves_are_exact_unless_wrapping (c : Cursor) (n : UInt32) (offset : c.offset ≤ c.limit)
    (limit : c.limit.toNat ≤ c.src.size) :
    ((c.advance n).src = c.src ∧ (c.advance n).limit = c.limit ∧ (c.advance n).offset ≤ c.limit) ∧
    ((c.advance n).offset.toNat = min (c.offset.toNat + n.toNat) c.limit.toNat ↔
      c.offset.toNat + n.toNat < UInt32.size) ∧
    (c.offset ≤ (c.advance n).offset ↔ c.offset.toNat + n.toNat < UInt32.size) ∧
    (n.toNat < c.limit.toNat - c.offset.toNat →
      ∃ b, c.src[c.offset.toNat + n.toNat]? = some b ∧ c.peekAt? n = some (b, true)) ∧
    (c.limit.toNat - c.offset.toNat ≤ n.toNat →
      (c.peekAt? n = some (0, false) ↔ c.offset.toNat + n.toNat < UInt32.size)) ∧
    (UInt32.size ≤ c.offset.toNat + n.toNat →
      (c.advance n).offset.toNat = c.offset.toNat - (UInt32.size - n.toNat) ∧
      ∃ b, c.src[c.offset.toNat - (UInt32.size - n.toNat)]? = some b ∧ c.peekAt? n = some (b, true)) := by
  have h : c.Placed := ⟨offset, limit⟩
  refine ⟨⟨rfl, rfl, (h.advance n).offset_le⟩, h.advance_exact_iff, h.offset_le_advance_iff, h.peekAt?_ahead,
    h.peekAt?_past_iff, fun wraps => ⟨h.toNat_offset_advance_of_wraps wraps, ?_⟩⟩
  rw [← toNat_further_of_wraps wraps]
  exact h.peekAt?_of_lt (h.further_lt_limit wraps)

/-- A cursor before the last of three bytes. -/
private def beforeLast : Cursor := { src := #[0x61, 0x62, 0x63], offset := 2, limit := 3 }

theorem short_move_is_exact :
    (beforeLast.offset ≤ beforeLast.limit ∧ beforeLast.limit.toNat ≤ beforeLast.src.size) ∧
    (beforeLast.advance 7).offset.toNat = min (2 + 7) 3 ∧ beforeLast.peekAt? 7 = some (0, false) ∧
    ∃ b, beforeLast.src[2]? = some b ∧ beforeLast.peekAt? 0 = some (b, true) := by
  have offset : beforeLast.offset ≤ beforeLast.limit := by decide
  have limit : beforeLast.limit.toNat ≤ beforeLast.src.size := by decide
  obtain ⟨-, move, -, -, past, -⟩ := moves_are_exact_unless_wrapping beforeLast 7 offset limit
  obtain ⟨-, -, -, ahead, -⟩ := moves_are_exact_unless_wrapping beforeLast 0 offset limit
  exact ⟨⟨offset, limit⟩, move.2 (by decide), (past (by decide)).2 (by decide), ahead (by decide)⟩

/-- With the greatest distance the cursor goes back by one byte instead of on to the limit, and the byte there is seen
ahead of it. -/
theorem greatest_move_goes_back :
    (beforeLast.offset ≤ beforeLast.limit ∧ beforeLast.limit.toNat ≤ beforeLast.src.size) ∧
    (beforeLast.advance 0xFFFFFFFF).offset.toNat = 1 ∧
    min (beforeLast.offset.toNat + (0xFFFFFFFF : UInt32).toNat) beforeLast.limit.toNat = 3 ∧
    ¬(0xFFFFFFFF : UInt32).toNat < beforeLast.limit.toNat - beforeLast.offset.toNat ∧
    beforeLast.peekAt? 0xFFFFFFFF = some (0x62, true) := by
  decide

end LetStack.Cursor
