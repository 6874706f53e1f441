import LetStack.Text.Bytes

/-!
`ofInt` and `toHex` are injective (`ofInt_injective`, `toHex_injective`), `dropSuffix` of an end without a separator
looks only behind the last separator (`dropSuffix_behind`), and `sort` does not depend on the order (`sort_perm`).
-/

namespace LetStack.Bytes

theorem ofString_append (s t : String) : ofString (s ++ t) = ofString s ++ ofString t := by
  simp [ofString]

theorem ofString_injective {s t : String} (h : ofString s = ofString t) : s = t :=
  String.toByteArray_inj.1 (congrArg ByteArray.mk (Array.toList_inj.1 h))

/-! ## Decimal -/

theorem ofNat_injective {m n : Nat} (h : ofNat m = ofNat n) : m = n := by
  have digits : Nat.toDigits 10 m = Nat.toDigits 10 n := String.ofList_injective (ofString_injective h)
  calc m = Nat.ofDigitChars 10 (Nat.toDigits 10 m) 0 := (Nat.ofDigitChars_toDigits (by decide) (by decide)).symm
    _ = Nat.ofDigitChars 10 (Nat.toDigits 10 n) 0 := by rw [digits]
    _ = n := Nat.ofDigitChars_toDigits (by decide) (by decide)

theorem ofNat_ne_minus (m n : Nat) : ofNat m ≠ "-" ++ ofNat n := by
  intro h
  have texts : toString m = "-" ++ toString n := ofString_injective (h.trans (ofString_append _ _).symm)
  have digits : Nat.toDigits 10 m = '-' :: Nat.toDigits 10 n := by
    have chars := congrArg String.toList texts
    rw [String.toList_append] at chars
    exact String.toList_ofList.symm.trans (chars.trans (congrArg ('-' :: ·) String.toList_ofList))
  have minus : '-' ∈ Nat.toDigits 10 m := by
    rw [digits]
    exact List.mem_cons_self
  have digit := Nat.isDigit_of_mem_toDigits (by decide) (by decide) minus
  revert digit
  decide

theorem ofInt_injective {m n : Int} (h : ofInt m = ofInt n) : m = n := by
  cases m with
  | ofNat m =>
    cases n with
    | ofNat n => rw [ofNat_injective h]
    | negSucc n => exact absurd h (ofNat_ne_minus m (n + 1))
  | negSucc m =>
    cases n with
    | ofNat n => exact absurd h.symm (ofNat_ne_minus n (m + 1))
    | negSucc n =>
      have same := ofNat_injective (List.append_cancel_left h)
      rw [Nat.succ.inj same]

/-! ## Hexadecimal -/

theorem hexDigit_injective {m n : Nat} (hm : m < 16) (hn : n < 16) (h : hexDigit m = hexDigit n) : m = n := by
  have all : ∀ m < 16, ∀ n < 16, hexDigit m = hexDigit n → m = n := by decide
  exact all m hm n hn h

theorem toHex_cons (b : UInt8) (x : Bytes) :
    toHex (b :: x) = hexDigit (b.toNat / 16) :: hexDigit (b.toNat % 16) :: toHex x := rfl

theorem toHex_injective {x y : Bytes} (h : toHex x = toHex y) : x = y := by
  induction x generalizing y with
  | nil =>
    cases y with
    | nil => rfl
    | cons c y => cases h
  | cons b x ih =>
    cases y with
    | nil => cases h
    | cons c y =>
      rw [toHex_cons, toHex_cons, List.cons.injEq, List.cons.injEq] at h
      obtain ⟨high, low, rest⟩ := h
      have hb := b.toNat_lt
      have hc := c.toNat_lt
      have high := hexDigit_injective (by omega) (by omega) high
      have low := hexDigit_injective (by omega) (by omega) low
      rw [ih rest, UInt8.toNat_inj.1 (by omega : b.toNat = c.toNat)]

/-! ## Ends -/

theorem endsWith_iff {x tail : Bytes} : x.endsWith tail = true ↔ tail <:+ x := by
  unfold endsWith
  rw [Bool.and_eq_true, decide_eq_true_eq, beq_iff_eq]
  constructor
  · rintro ⟨-, same⟩
    exact same ▸ List.drop_suffix _ x
  · intro h
    exact ⟨h.length_le, (List.suffix_iff_eq_drop.1 h).symm⟩

theorem dropSuffix_isPrefix (x tail : Bytes) : x.dropSuffix tail <+: x := by
  unfold dropSuffix
  split
  · exact List.take_prefix _ x
  · exact List.prefix_rfl

theorem dropSuffix_append (x tail : Bytes) : (x ++ tail).dropSuffix tail = x := by
  have ends : (x ++ tail).endsWith tail = true := endsWith_iff.2 (List.suffix_append x tail)
  rw [dropSuffix, if_pos ends, List.length_append, Nat.add_sub_cancel, List.take_left]

theorem endsWith_append {sep : UInt8} {tail : Bytes} (plain : sep ∉ tail) (front x : Bytes) :
    (front ++ sep :: x).endsWith tail = x.endsWith tail := by
  rw [Bool.eq_iff_iff, endsWith_iff, endsWith_iff]
  constructor
  · intro h
    rcases Nat.lt_or_ge x.length tail.length with longer | within
    · -- the separator would be in the end
      have whole : sep :: x <:+ tail :=
        List.suffix_of_suffix_length_le (List.suffix_append front _) h longer
      exact absurd (whole.mem List.mem_cons_self) plain
    · exact List.suffix_of_suffix_length_le h (List.suffix_append_of_suffix (List.suffix_cons sep x)) within
  · intro h
    exact List.suffix_append_of_suffix (h.trans (List.suffix_cons sep x))

theorem dropSuffix_behind {sep : UInt8} {tail : Bytes} (plain : sep ∉ tail) (front x : Bytes) :
    (front ++ sep :: x).dropSuffix tail = front ++ sep :: x.dropSuffix tail := by
  cases ends : x.endsWith tail with
  | true =>
    obtain ⟨rest, rfl⟩ := endsWith_iff.1 ends
    rw [dropSuffix_append, ← List.cons_append, ← List.append_assoc, dropSuffix_append]
  | false =>
    rw [dropSuffix, dropSuffix, endsWith_append plain, ends, if_neg Bool.false_ne_true, if_neg Bool.false_ne_true]

/-! ## Order -/

theorem before_iff {x y : Bytes} : before x y = true ↔ x < y := by
  induction x generalizing y with
  | nil => cases y <;> simp [before]
  | cons a x ih =>
    cases y with
    | nil => simp [before]
    | cons b y => simp [before, List.cons_lt_cons_iff, ih]

theorem not_before_iff {x y : Bytes} : (!before y x) = true ↔ x ≤ y := by
  rw [Bool.not_eq_true', ← Bool.not_eq_true, before_iff, List.not_lt]

theorem pairwise_sort (xs : List Bytes) : (sort xs).Pairwise (· ≤ ·) := by
  refine (List.pairwise_mergeSort ?_ ?_ xs).imp not_before_iff.1
  · intro x y z
    rw [not_before_iff, not_before_iff, not_before_iff]
    exact List.le_trans
  · intro x y
    rw [Bool.or_eq_true, not_before_iff, not_before_iff]
    exact List.le_total x y

theorem sort_perm {xs ys : List Bytes} (h : xs.Perm ys) : sort xs = sort ys := by
  have same : (sort xs).Perm (sort ys) := (List.mergeSort_perm xs _).trans (h.trans (List.mergeSort_perm ys _).symm)
  exact same.eq_of_pairwise (fun _ _ _ _ => List.le_antisymm) (pairwise_sort xs) (pairwise_sort ys)

end LetStack.Bytes
