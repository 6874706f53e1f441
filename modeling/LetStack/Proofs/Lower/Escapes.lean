import LetStack.Proofs.Lower.Slices
import LetStack.Proofs.Token.Characters

/-!
What `escapeAt` reports of an invalid escape: a braced number, or the backslash and one byte (`escapeAt_error`). If
that byte is the first of a longer character the report ends inside of it; otherwise it lies between characters
(`unescape_reported`).
-/

namespace LetStack.Lower
open Utf8

/-! ## What is found in a body -/

theorem exists_closing_brace {digits : Bytes} (longer : (digits.takeWhile (· != 0x7D)).length ≠ digits.length) :
    ∃ tail, digits = digits.takeWhile (· != 0x7D) ++ 0x7D :: tail := by
  have split := @List.takeWhile_append_dropWhile _ (· != (0x7D : UInt8)) digits
  have stopped := @List.head?_dropWhile_not _ (· != (0x7D : UInt8)) digits
  cases behind : digits.dropWhile (· != 0x7D) with
  | nil =>
    rw [behind, List.append_nil] at split
    exact absurd (congrArg List.length split) longer
  | cons b tail =>
    rw [behind] at split stopped
    obtain rfl : b = 0x7D := by simpa using stopped
    exact ⟨tail, split.symm⟩

theorem escapeAt_error {rest : Bytes} {n : Nat} (h : escapeAt (0x5C :: rest) = .error n) :
    rest = [] ∧ n = 1 ∨ (∃ b tail, rest = b :: tail ∧ n = 2) ∨
      ∃ hex tail, rest = 0x75 :: 0x7B :: (hex ++ 0x7D :: tail) ∧ n = hex.length + 4 := by
  unfold escapeAt at h
  split at h
  · cases h
  · cases h
  · cases h
  · cases h
  · cases h
  · cases h
  · cases h
  · next digits same =>
    obtain ⟨_, rfl⟩ := List.cons.inj same
    extract_lets hex at h
    split at h
    · cases h
      exact .inr (.inl ⟨_, _, rfl, rfl⟩)
    · next longer =>
      obtain ⟨tail, split⟩ := exists_closing_brace longer
      have reached : n = hex.length + 4 := by
        unfold scalarOf at h
        split at h
        · exact (Except.error.inj h).symm
        split at h
        · split at h
          · cases h
          · exact (Except.error.inj h).symm
        · exact (Except.error.inj h).symm
      exact .inr (.inr ⟨hex, tail, congrArg (0x75 :: 0x7B :: ·) split, reached⟩)
  · next same =>
    cases h
    obtain ⟨_, rfl⟩ := List.cons.inj same
    exact .inr (.inl ⟨_, _, rfl, rfl⟩)
  · next alone =>
    cases h
    cases rest with
    | nil => exact .inl ⟨rfl, rfl⟩
    | cons b tail => exact absurd rfl (alone 0x5C b tail)

theorem error_of_map_error {α β ε : Type} {f : α → β} {r : Except ε α} {e : ε} (h : r.map f = .error e) :
    r = .error e := by
  cases r with
  | error _ =>
    cases h
    rfl
  | ok _ => cases h

theorem unescapeFrom_error {offset : Nat} {x : Bytes} {bad : BadEscape} (h : unescapeFrom offset x = .error bad) :
    ∃ before rest n, x = before ++ 0x5C :: rest ∧ bad.offset = offset + before.length ∧
      escapeAt (0x5C :: rest) = .error n ∧ bad.text = (0x5C :: rest).take n := by
  fun_induction unescapeFrom offset x with
  | case1 => cases h
  | case2 offset rest n found =>
    cases h
    exact ⟨[], rest, n, rfl, rfl, found, rfl⟩
  | case3 offset rest n c found ih =>
    obtain ⟨before, behind, k, split, place, error, text⟩ := ih (error_of_map_error h)
    -- something is left behind the escape, so it is as long as it says
    have inside : n ≤ (0x5C :: rest).length := by
      have some := congrArg List.length split
      simp only [List.length_drop, List.length_append, List.length_cons] at some ⊢
      omega
    refine ⟨(0x5C :: rest).take n ++ before, behind, k, ?_, ?_, error, text⟩
    · rw [List.append_assoc, ← split, List.take_append_drop]
    · rw [place, List.length_append, List.length_take_of_le inside, Nat.add_assoc]
  | case4 offset b rest other ih =>
    obtain ⟨before, behind, k, rfl, place, error, text⟩ := ih (error_of_map_error h)
    refine ⟨b :: before, behind, k, rfl, ?_, error, text⟩
    rw [place, List.length_cons, Nat.add_assoc, Nat.add_comm 1]

/-! ## Places in the source -/

/-- Behind the byte at an offset there is one that is no ASCII. -/
def HighBehind (src : Bytes) (n : Nat) : Prop := ∃ b, src[n + 1]? = some b ∧ 0x80 ≤ b

theorem highBehind_iff {u v : Bytes} {a b : UInt8} : HighBehind (u ++ a :: b :: v) u.length ↔ ¬b.toNat < 128 := by
  have found : (u ++ a :: b :: v)[u.length + 1]? = some b := by simp
  unfold HighBehind
  rw [found, Nat.not_lt]
  constructor
  · rintro ⟨_, ⟨⟩, high⟩
    exact UInt8.le_iff_toNat_le.1 high
  · exact fun high => ⟨b, rfl, UInt8.le_iff_toNat_le.2 high⟩

/-- An escape that is none ends between characters, unless a longer character stands behind its backslash. -/
theorem badEscape_boundary_iff {u rest behind : Bytes} {last : UInt8} {n : Nat}
    (closed : Boundary (u ++ 0x5C :: (rest ++ last :: behind)) (u.length + rest.length + 2))
    (h : escapeAt (0x5C :: rest) = .error n) :
    Boundary (u ++ 0x5C :: (rest ++ last :: behind)) (u.length + n) ↔
      ¬HighBehind (u ++ 0x5C :: (rest ++ last :: behind)) u.length := by
  have whole := closed.encoded
  have next {b : UInt8} {v : Bytes} (split : rest ++ last :: behind = b :: v) :
      Boundary (u ++ 0x5C :: (rest ++ last :: behind)) (u.length + 2) ↔
        ¬HighBehind (u ++ 0x5C :: (rest ++ last :: behind)) u.length := by
    have slash := (boundaries_ascii whole (by decide)).2
    rw [split] at slash ⊢
    rw [highBehind_iff, Decidable.not_not]
    have front : u ++ 0x5C :: b :: v = (u ++ [0x5C]) ++ b :: v := by rw [List.append_assoc]; rfl
    have size : (u ++ [0x5C]).length = u.length + 1 := List.length_append
    rw [front, ← size] at slash
    rw [front, ← slash.succ_iff, size]
  rcases escapeAt_error h with ⟨rfl, rfl⟩ | ⟨b, tail, rfl, rfl⟩ | ⟨hex, tail, rfl, rfl⟩
  · -- the closing quote is behind the backslash
    exact ⟨fun _ => (next rfl).1 closed, fun _ => (boundaries_ascii whole (by decide)).2⟩
  · exact next rfl
  · refine iff_of_true ?_ (fun high => highBehind_iff.1 high (by decide))
    have brace : u ++ 0x5C :: (0x75 :: 0x7B :: (hex ++ 0x7D :: tail) ++ last :: behind) =
        (u ++ 0x5C :: 0x75 :: 0x7B :: hex) ++ 0x7D :: (tail ++ last :: behind) := by simp
    have size : (u ++ 0x5C :: 0x75 :: 0x7B :: hex).length + 1 = u.length + (hex.length + 4) := by
      rw [List.length_append]
      rfl
    rw [brace] at whole ⊢
    rw [← size]
    exact (boundaries_ascii whole (by decide)).2

theorem escapeAt_error_le {rest : Bytes} {n : Nat} (h : escapeAt (0x5C :: rest) = .error n) :
    n ≤ rest.length + 1 := by
  rcases escapeAt_error h with ⟨rfl, rfl⟩ | ⟨b, tail, rfl, rfl⟩ | ⟨hex, tail, rfl, rfl⟩
  · exact Nat.le_refl _
  · exact Nat.le_add_left 2 tail.length
  · simp only [List.length_cons, List.length_append]
    omega

theorem escapeAt_error_pos {rest : Bytes} {n : Nat} (h : escapeAt (0x5C :: rest) = .error n) : 0 < n := by
  rcases escapeAt_error h with ⟨_, rfl⟩ | ⟨_, _, _, rfl⟩ | ⟨_, _, _, rfl⟩ <;> exact Nat.succ_pos _

theorem escapeSpan_toNat {lit : Span} {off n : Nat} (fits : lit.start.toNat + off + n ≤ lit.stop.toNat) :
    (escapeSpan lit off n).start.toNat = lit.start.toNat + off ∧
      (escapeSpan lit off n).stop.toNat = lit.start.toNat + off + n := by
  have size : UInt32.size = 4294967296 := rfl
  have bound := lit.stop.toNat_lt
  have start : (lit.start + UInt32.ofNat off).toNat = lit.start.toNat + off := by
    rw [UInt32.toNat_add, UInt32.toNat_ofNat_of_lt' (by omega), Nat.mod_eq_of_lt (by omega)]
  have stop : (lit.start + UInt32.ofNat off + UInt32.ofNat n).toNat = lit.start.toNat + off + n := by
    rw [UInt32.toNat_add, start, UInt32.toNat_ofNat_of_lt' (by omega), Nat.mod_eq_of_lt (by omega)]
  refine ⟨start, ?_⟩
  have inside : lit.start + UInt32.ofNat off + UInt32.ofNat n ≤ lit.stop := by
    rw [UInt32.le_iff_toNat_le, stop]
    exact fits
  show (min _ _ : UInt32).toNat = _
  rw [UInt32.min_def, if_pos inside, stop]

theorem quotes_around_body {raw : Bytes} (long : 2 ≤ raw.length) :
    ∃ opening closing, raw = opening :: ((raw.drop 1).take (raw.length - 2) ++ [closing]) := by
  obtain ⟨opening, tail, rfl⟩ := List.exists_cons_of_length_pos (Nat.lt_of_lt_of_le Nat.zero_lt_two long)
  have nonempty : tail ≠ [] := List.length_pos_iff.1 (Nat.le_of_succ_le_succ long)
  refine ⟨opening, tail.getLast nonempty, ?_⟩
  have body : tail.take ((opening :: tail).length - 2) = tail.dropLast := by
    rw [List.dropLast_eq_take]
    rfl
  rw [List.drop_succ_cons, List.drop_zero, body, List.dropLast_append_getLast]

theorem body_in_source {src : Bytes} {tok : Token} (placed : Token.Placed src tok) (long : 2 ≤ tok.text.length) :
    ∃ front last behind, src = front ++ ((tok.text.drop 1).take (tok.text.length - 2) ++ last :: behind) ∧
      front.length = tok.span.start.toNat + 1 ∧
      front.length + ((tok.text.drop 1).take (tok.text.length - 2)).length + 1 = tok.span.stop.toNat := by
  obtain ⟨opening, closing, quoted⟩ := quotes_around_body long
  obtain ⟨nonempty, inside, text, _⟩ := placed
  have size : tok.text.length = tok.span.stop.toNat - tok.span.start.toNat := by
    rw [text, List.length_take_of_le]
    rw [List.length_drop]
    omega
  have source : src = src.take tok.span.start.toNat ++ (tok.text ++ src.drop tok.span.stop.toNat) := by
    have rest := List.take_append_drop (tok.span.stop.toNat - tok.span.start.toNat) (src.drop tok.span.start.toNat)
    rw [← text, List.drop_drop, Nat.add_sub_cancel' (Nat.le_of_lt nonempty)] at rest
    rw [rest, List.take_append_drop]
  have front : (src.take tok.span.start.toNat).length = tok.span.start.toNat := List.length_take_of_le (by omega)
  generalize (tok.text.drop 1).take (tok.text.length - 2) = body at quoted ⊢
  rw [quoted] at source size
  refine ⟨src.take tok.span.start.toNat ++ [opening], closing, src.drop tok.span.stop.toNat, ?_, ?_, ?_⟩
  · simpa using source
  · rw [List.length_append, front]
    rfl
  · simp only [List.length_append, List.length_cons, List.length_nil, front] at size ⊢
    omega

theorem unescape_error {raw : Bytes} {span : Span} {f : Fault} (long : 2 ≤ raw.length)
    (h : unescape raw span = .error f) :
    ∃ before rest n, (raw.drop 1).take (raw.length - 2) = before ++ 0x5C :: rest ∧
      escapeAt (0x5C :: rest) = .error n ∧
      f = .user .invalidEscape (escapeSpan span (before.length + 1) n)
        ("unknown escape sequence `" ++ (0x5C :: rest).take n ++ "`") := by
  unfold unescape at h
  rw [if_neg (Nat.not_lt.2 long)] at h
  split at h
  · cases h
  · next bad found =>
    obtain ⟨before, rest, n, split, place, error, text⟩ := unescapeFrom_error found
    refine ⟨before, rest, n, split, error, ?_⟩
    have length : bad.text.length = n := by
      rw [text, List.length_take_of_le (escapeAt_error_le error)]
    rw [← Except.error.inj h, place, length, text, Nat.zero_add]

theorem encoded_quoting_iff {before text : Bytes} (front : Encoded before) :
    Encoded (before ++ text ++ "`") ↔ Encoded text := by
  have tick : Bytes.ofString "`" = [0x60] := by decide
  rw [tick]
  constructor
  · intro whole
    rw [List.append_assoc] at whole
    exact ((front.of_append whole).around_ascii (by decide)).1
  · exact fun quoted => (front.append quoted).append (encoded_ascii (List.forall_mem_singleton.2 (by decide)))

theorem unescape_reported {src : Bytes} {tok : Token} (placed : Token.Placed src tok) (aligned : tok.span.Aligned src)
    (long : 2 ≤ tok.text.length) {f : Fault} (h : unescape tok.text tok.span = .error f) :
    f.code = .invalidEscape ∧ Boundary src f.span.start.toNat ∧
      (Boundary src f.span.stop.toNat ↔ ¬HighBehind src f.span.start.toNat) ∧
      (Encoded f.message ↔ ¬HighBehind src f.span.start.toNat) := by
  obtain ⟨before, rest, n, body, error, rfl⟩ := unescape_error long h
  obtain ⟨front, last, behind, split, place, closed⟩ := body_in_source placed long
  rw [body] at split closed
  rw [List.append_assoc, List.cons_append, ← List.append_assoc] at split
  have short := escapeAt_error_le error
  have size : (front ++ before).length = tok.span.start.toNat + (before.length + 1) := by
    rw [List.length_append, place]
    omega
  have ended : tok.span.stop.toNat = (front ++ before).length + rest.length + 2 := by
    rw [← closed, List.length_append, List.length_append, List.length_cons]
    omega
  obtain ⟨start, stop⟩ := @escapeSpan_toNat tok.span (before.length + 1) n (by omega)
  rw [← size] at start stop
  have whole := aligned.stop
  rw [ended, split] at whole
  have boundary := badEscape_boundary_iff whole error
  have slash := (boundaries_ascii whole.encoded (by decide)).1
  have quoted : (0x5C :: (rest ++ last :: behind)).take n = (0x5C :: rest).take n := by
    rw [← List.cons_append, List.take_append_of_le_length short]
  have message := slash.add_iff (k := n) (by simp; omega)
  rw [quoted, ← encoded_quoting_iff (encoded_ofString "unknown escape sequence `")] at message
  dsimp only [Fault.user]
  rw [start, stop, split]
  exact ⟨rfl, slash, boundary, message.symm.trans boundary⟩

end LetStack.Lower
