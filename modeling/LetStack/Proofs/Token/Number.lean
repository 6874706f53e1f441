import LetStack.Proofs.Token.Classes

/-!
`matchNumber` reaches as far as any integer, decimal or exponent at the start of a text (`best_number`).
-/

namespace LetStack.Token

/-! ## Counting digits -/

theorem countWhile_le (p : UInt8 → Bool) (x : Bytes) : countWhile p x ≤ x.length :=
  (List.takeWhile_prefix p).length_le

variable {p : UInt8 → Bool} {ds x : Bytes} {b : UInt8} {n : Nat}

theorem countWhile_append (h : ∀ b ∈ ds, p b = true) (x : Bytes) :
    countWhile p (ds ++ x) = ds.length + countWhile p x := by
  rw [countWhile, List.takeWhile_append_of_pos h, List.length_append, countWhile]

theorem countWhile_stop (h : p b = false) (x : Bytes) : countWhile p (b :: x) = 0 := by
  rw [countWhile, List.takeWhile_cons_of_neg (by simp [h])]
  rfl

theorem Digits.length_pos (h : Digits p ds) : 0 < ds.length :=
  List.length_pos_iff.2 h.nonempty

theorem Digits.countWhile_eq (h : Digits p ds) (stop : p b = false) (x : Bytes) :
    countWhile p (ds ++ b :: x) = ds.length := by
  rw [countWhile_append h.all, countWhile_stop stop, Nat.add_zero]

theorem Digits.le_countWhile (h : Digits p ds) (start : ds <+: x) : ds.length ≤ countWhile p x := by
  obtain ⟨rest, rfl⟩ := start
  rw [countWhile_append h.all]
  exact Nat.le_add_right _ _

theorem fractionLength_point (some : 0 < countWhile isDecimalDigit x) :
    fractionLength (0x2E :: x) = countWhile isDecimalDigit x + 1 :=
  if_neg (Nat.ne_of_gt some)

theorem fractionLength_other (h : b ≠ 0x2E) (x : Bytes) : fractionLength (b :: x) = 0 := by
  unfold fractionLength
  split
  · next same => cases same; exact absurd rfl h
  · rfl

theorem exponentLength_power {mark sign : UInt8} (marked : mark = 0x65 ∨ mark = 0x45)
    (signed : sign = 0x2B ∨ sign = 0x2D) (some : 0 < countWhile isDecimalDigit x) :
    exponentLength (mark :: sign :: x) = countWhile isDecimalDigit x + 2 :=
  (if_pos ⟨marked, signed⟩).trans (if_neg (Nat.ne_of_gt some))

theorem fractionLength_le (x : Bytes) : fractionLength x ≤ x.length := by
  unfold fractionLength
  split
  · next digits =>
    have := countWhile_le isDecimalDigit digits
    dsimp only
    split <;> simp only [List.length_cons] <;> omega
  · exact Nat.zero_le _

theorem exponentLength_le (x : Bytes) : exponentLength x ≤ x.length := by
  unfold exponentLength
  split
  · next mark sign digits =>
    have := countWhile_le isDecimalDigit digits
    split
    · dsimp only
      split <;> simp only [List.length_cons] <;> omega
    · exact Nat.zero_le _
  · exact Nat.zero_le _

/-- What a number with a base in front of its digits looks like. -/
theorem prefixed_inv (h : 0 < prefixedLength x) :
    ∃ base digits, x = 0x30 :: base :: digits ∧ (base = 0x62 ∨ base = 0x6F ∨ base = 0x78) ∧
      2 < prefixedLength x ∧ prefixedLength x ≤ x.length := by
  unfold prefixedLength at h ⊢
  split at h
  · next base digits =>
    refine ⟨base, digits, rfl, ?_⟩
    dsimp only at h ⊢
    generalize counted : (if base = 0x62 then countWhile isBinaryDigit digits
      else if base = 0x6F then countWhile isOctalDigit digits
      else if base = 0x78 then countWhile isHexDigit digits else 0) = n at h ⊢
    have bounds : n ≤ digits.length ∧ (n ≠ 0 → base = 0x62 ∨ base = 0x6F ∨ base = 0x78) := by
      rw [← counted]
      split
      · next two => exact ⟨countWhile_le _ _, fun _ => .inl two⟩
      split
      · next eight => exact ⟨countWhile_le _ _, fun _ => .inr (.inl eight)⟩
      split
      · next sixteen => exact ⟨countWhile_le _ _, fun _ => .inr (.inr sixteen)⟩
      · exact ⟨Nat.zero_le _, fun some => absurd rfl some⟩
    split at h
    · cases h
    · next some =>
      rw [if_neg some, List.length_cons, List.length_cons]
      exact ⟨bounds.2 some, by omega, by omega⟩
  · cases h

/-! ## The parts of a number -/

/-- The length of the digits that a number starts with. -/
def wholeLength (x : Bytes) : Nat := countWhile isDecimalDigit x

/-- The length of the integer that a number may be, where a base in front of digits makes it longer. -/
def integerLength (x : Bytes) : Nat :=
  if wholeLength x = 1 then max (wholeLength x) (prefixedLength x) else wholeLength x

/-- The length of a number without its exponent. -/
def mantissaLength (x : Bytes) : Nat := wholeLength x + fractionLength (x.drop (wholeLength x))

/-- The length of the exponent of a number. -/
def powerLength (x : Bytes) : Nat := exponentLength (x.drop (mantissaLength x))

/-- A base in front of digits shuts out a fraction and an exponent. -/
theorem prefixed_alone (h : 0 < prefixedLength x) : wholeLength x = 1 ∧ mantissaLength x = 1 ∧ powerLength x = 0 := by
  obtain ⟨base, digits, rfl, based, _⟩ := prefixed_inv h
  have other : isDecimalDigit base = false ∧ base ≠ 0x2E ∧ ¬(base = 0x65 ∨ base = 0x45) := by
    rcases based with rfl | rfl | rfl <;> decide
  have whole : wholeLength (0x30 :: base :: digits) = 1 := digits_zero.countWhile_eq other.1 digits
  have mantissa : mantissaLength (0x30 :: base :: digits) = 1 := by
    rw [mantissaLength, whole]
    exact congrArg (1 + ·) (fractionLength_other other.2.1 digits)
  refine ⟨whole, mantissa, ?_⟩
  rw [powerLength, mantissa]
  show exponentLength (base :: digits) = 0
  unfold exponentLength
  split
  · next same =>
    cases same
    exact if_neg fun marked => other.2.2 marked.1
  · rfl

theorem length_integer {w : Bytes} {base : Nat} (h : IntegerText w base ds) (start : w <+: x) :
    w.length ≤ wholeLength x ∨ w.length ≤ prefixedLength x := by
  have counted {p : UInt8 → Bool} {mark : UInt8} {ds rest : Bytes} (digits : Digits p ds)
      (length : prefixedLength (0x30 :: mark :: (ds ++ rest)) =
        if countWhile p (ds ++ rest) = 0 then 0 else countWhile p (ds ++ rest) + 2) :
      (0x30 :: mark :: ds).length ≤ prefixedLength (0x30 :: mark :: (ds ++ rest)) := by
    have long := digits.le_countWhile (List.prefix_append ds rest)
    have some := digits.length_pos
    rw [length, if_neg (by omega)]
    exact Nat.add_le_add_right long 2
  cases h with
  | decimal digits => exact .inl (digits.le_countWhile start)
  | binary digits | octal digits | hexadecimal digits =>
    obtain ⟨rest, rfl⟩ := start
    exact .inr (counted digits rfl)

theorem length_decimal {whole fraction : Bytes} (digits : Digits isDecimalDigit whole) (point : FractionText fraction)
    (some : fraction ≠ []) (start : whole ++ fraction <+: x) :
    (whole ++ fraction).length ≤ mantissaLength x ∧ wholeLength x < mantissaLength x := by
  cases point with
  | none => exact absurd rfl some
  | @point ds fractional =>
    obtain ⟨rest, rfl⟩ := start
    rw [List.append_assoc, List.cons_append]
    have long := fractional.le_countWhile (List.prefix_append ds rest)
    have positive := fractional.length_pos
    have split : wholeLength (whole ++ 0x2E :: (ds ++ rest)) = whole.length :=
      digits.countWhile_eq (by decide) _
    rw [mantissaLength, split, List.drop_left, fractionLength_point (by omega), List.length_append,
      List.length_cons]
    omega

theorem length_exponent {whole fraction exponent : Bytes} (digits : Digits isDecimalDigit whole)
    (point : FractionText fraction) (power : ExponentText exponent) (some : exponent ≠ [])
    (start : whole ++ (fraction ++ exponent) <+: x) :
    (whole ++ (fraction ++ exponent)).length ≤ mantissaLength x + powerLength x ∧ 0 < powerLength x := by
  cases power with
  | none => exact absurd rfl some
  | @power mark sign ds marked signed powers =>
    obtain ⟨rest, rfl⟩ := start
    have other : isDecimalDigit mark = false ∧ mark ≠ 0x2E := by
      rcases marked with rfl | rfl <;> decide
    have long := powers.le_countWhile (List.prefix_append ds rest)
    have positive := powers.length_pos
    -- the exponent stands right behind the mantissa
    have mantissa : mantissaLength (whole ++ (fraction ++ mark :: sign :: (ds ++ rest))) =
        (whole ++ fraction).length := by
      cases point with
      | none =>
        have split : wholeLength (whole ++ mark :: sign :: (ds ++ rest)) = whole.length :=
          digits.countWhile_eq other.1 _
        rw [List.nil_append, List.append_nil, mantissaLength, split, List.drop_left,
          fractionLength_other other.2]
        rfl
      | @point fs fractional =>
        have split : wholeLength (whole ++ 0x2E :: (fs ++ mark :: sign :: (ds ++ rest))) = whole.length :=
          digits.countWhile_eq (by decide) _
        have fractions := fractional.countWhile_eq other.1 (sign :: (ds ++ rest))
        have := fractional.length_pos
        rw [List.cons_append, mantissaLength, split, List.drop_left, fractionLength_point (by omega), fractions,
          List.length_append, List.length_cons]
    have behind : powerLength (whole ++ (fraction ++ mark :: sign :: (ds ++ rest))) =
        countWhile isDecimalDigit (ds ++ rest) + 2 := by
      rw [powerLength, mantissa, ← List.append_assoc, List.drop_left,
        exponentLength_power marked signed (by omega)]
    simp only [List.append_assoc, List.cons_append] at mantissa behind ⊢
    rw [mantissa, behind]
    simp only [List.length_append, List.length_cons]
    omega

/-! ## The longest number -/

theorem matchNumber_eq (x : Bytes) :
    matchNumber x =
      if 0 < powerLength x ∧ max (integerLength x) (mantissaLength x) < mantissaLength x + powerLength x then
        (.exponentLit, mantissaLength x + powerLength x)
      else if integerLength x < mantissaLength x then (.decimalLit, mantissaLength x)
      else (.intLit, integerLength x) := by
  show (let best := if integerLength x < mantissaLength x then (Kind.decimalLit, mantissaLength x)
      else (Kind.intLit, integerLength x)
    if 0 < powerLength x ∧ best.2 < mantissaLength x + powerLength x then
      (Kind.exponentLit, mantissaLength x + powerLength x) else best) = _
  by_cases point : integerLength x < mantissaLength x
  · simp only [if_pos point, Nat.max_eq_right (Nat.le_of_lt point)]
  · simp only [if_neg point, Nat.max_eq_left (Nat.not_lt.1 point)]

theorem matchNumber_prefixed (based : 0 < prefixedLength x) : matchNumber x = (.intLit, prefixedLength x) := by
  obtain ⟨whole, mantissa, power⟩ := prefixed_alone based
  have int : integerLength x = prefixedLength x := by
    rw [integerLength, if_pos whole, whole]
    exact Nat.max_eq_right based
  rw [matchNumber_eq, int, mantissa, power, if_neg (fun h => Nat.lt_irrefl 0 h.1),
    if_neg (Nat.not_lt.2 based)]

/-- Without one it reaches to the end of its exponent, or of its fraction, or of its digits. -/
theorem matchNumber_plain (plain : prefixedLength x = 0) :
    matchNumber x = if 0 < powerLength x then (.exponentLit, mantissaLength x + powerLength x)
      else if wholeLength x < mantissaLength x then (.decimalLit, mantissaLength x)
      else (.intLit, wholeLength x) := by
  have int : integerLength x = wholeLength x := by
    rw [integerLength, plain, Nat.max_eq_left (Nat.zero_le _), ite_self]
  have long : wholeLength x ≤ mantissaLength x := Nat.le_add_right _ _
  rw [matchNumber_eq, int, Nat.max_eq_right long]
  congr 1
  exact propext ⟨And.left, fun power => ⟨power, Nat.lt_add_of_pos_right power⟩⟩

theorem take_ne_nil (fits : n ≤ x.length) (positive : 0 < n) : x.take n ≠ [] := by
  intro empty
  have length := congrArg List.length empty
  rw [List.length_take_of_le fits] at length
  exact Nat.ne_of_gt positive length

theorem digits_wholeLength (h : x.head?.any isDecimalDigit = true) :
    Digits isDecimalDigit (x.take (wholeLength x)) := by
  refine digits_take_countWhile ?_
  cases x with
  | nil => cases h
  | cons b x =>
    have digit : isDecimalDigit b = true := by simpa using h
    simp [countWhile, digit]

theorem mantissaLength_le (x : Bytes) : mantissaLength x ≤ x.length := by
  have whole : wholeLength x ≤ x.length := countWhile_le _ _
  have fraction := fractionLength_le (x.drop (wholeLength x))
  rw [List.length_drop] at fraction
  unfold mantissaLength
  omega

theorem powerLength_le (x : Bytes) : mantissaLength x + powerLength x ≤ x.length := by
  have mantissa := mantissaLength_le x
  have power := exponentLength_le (x.drop (mantissaLength x))
  rw [List.length_drop] at power
  unfold powerLength
  omega

theorem take_mantissaLength (x : Bytes) :
    x.take (mantissaLength x) =
      x.take (wholeLength x) ++ (x.drop (wholeLength x)).take (fractionLength (x.drop (wholeLength x))) :=
  List.take_add

theorem matchNumber_matches (h : x.head?.any isDecimalDigit = true) :
    ∃ cl : Class, cl.lead = .digit ∧ Matches x cl (matchNumber x).1 (matchNumber x).2 := by
  by_cases based : 0 < prefixedLength x
  · obtain ⟨_, _, _, _, _, fits⟩ := prefixed_inv based
    obtain ⟨base, ds, text⟩ := integerText_of_prefixed based
    rw [matchNumber_prefixed based]
    exact ⟨.integer, rfl, .of_take fits (.integer text)⟩
  have digits := digits_wholeLength h
  have fraction := fractionText_take (x.drop (wholeLength x))
  rw [matchNumber_plain (Nat.eq_zero_of_not_pos based)]
  split
  · next power =>
    refine ⟨.exponent, rfl, .of_take (powerLength_le x) ?_⟩
    rw [List.take_add, take_mantissaLength, List.append_assoc]
    exact .exponent digits fraction (exponentText_take _) (take_ne_nil (exponentLength_le _) power)
  split
  · next point =>
    refine ⟨.decimal, rfl, .of_take (mantissaLength_le x) ?_⟩
    rw [take_mantissaLength]
    exact .decimal digits fraction (take_ne_nil (fractionLength_le _) (Nat.lt_add_right_iff_pos.1 point))
  · exact ⟨.integer, rfl, .of_take (countWhile_le _ _) (.integer (.decimal digits))⟩

theorem length_number {cl : Class} {k : Kind} (numeric : cl.lead = .digit) (h : Matches x cl k n) :
    k = .intLit ∧ (n ≤ wholeLength x ∨ n ≤ prefixedLength x) ∨
    k = .decimalLit ∧ n ≤ mantissaLength x ∧ wholeLength x < mantissaLength x ∨
    k = .exponentLit ∧ n ≤ mantissaLength x + powerLength x ∧ 0 < powerLength x := by
  cases h with
  | spelled text start =>
    cases text with
    | integer text => exact .inl ⟨rfl, length_integer text start⟩
    | decimal digits point some => exact .inr (.inl ⟨rfl, length_decimal digits point some start⟩)
    | exponent digits point power some => exact .inr (.inr ⟨rfl, length_exponent digits point power some start⟩)
    | punctuation _ | word _ | identifier _ _ => cases numeric
  | character _ | string _ => cases numeric

/-- No number at the start of a text is longer than the one that is found, and one that is equally long
is of the same form. -/
theorem matchNumber_longest {cl : Class} {k : Kind} (numeric : cl.lead = .digit) (h : Matches x cl k n) :
    n ≤ (matchNumber x).2 ∧ (n = (matchNumber x).2 → k = (matchNumber x).1) := by
  have long : wholeLength x ≤ mantissaLength x := Nat.le_add_right _ _
  have some := h.pos
  by_cases based : 0 < prefixedLength x
  · obtain ⟨whole, mantissa, power⟩ := prefixed_alone based
    obtain ⟨_, _, _, _, two, _⟩ := prefixed_inv based
    rw [matchNumber_prefixed based]
    -- behind one digit and a base there is no fraction and no exponent
    rcases length_number numeric h with ⟨rfl, short⟩ | ⟨rfl, _, point⟩ | ⟨rfl, _, more⟩
    · exact ⟨show n ≤ prefixedLength x by omega, fun _ => rfl⟩
    · omega
    · omega
  · rw [matchNumber_plain (Nat.eq_zero_of_not_pos based)]
    -- a form that has less than what is found ends before it
    rcases length_number numeric h with ⟨rfl, short⟩ | ⟨rfl, short, point⟩ | ⟨rfl, short, power⟩
    · by_cases power : 0 < powerLength x
      · have below : n < mantissaLength x + powerLength x := by omega
        rw [if_pos power]
        exact ⟨Nat.le_of_lt below, fun same => absurd same (Nat.ne_of_lt below)⟩
      rw [if_neg power]
      by_cases point : wholeLength x < mantissaLength x
      · have below : n < mantissaLength x := by omega
        rw [if_pos point]
        exact ⟨Nat.le_of_lt below, fun same => absurd same (Nat.ne_of_lt below)⟩
      · rw [if_neg point]
        exact ⟨show n ≤ wholeLength x by omega, fun _ => rfl⟩
    · by_cases power : 0 < powerLength x
      · have below : n < mantissaLength x + powerLength x := by omega
        rw [if_pos power]
        exact ⟨Nat.le_of_lt below, fun same => absurd same (Nat.ne_of_lt below)⟩
      · rw [if_neg power, if_pos point]
        exact ⟨short, fun _ => rfl⟩
    · rw [if_pos power]
      exact ⟨short, fun _ => rfl⟩

theorem best_number (h : x.head?.any isDecimalDigit = true) : ∃ cl, Best x cl (matchNumber x).1 (matchNumber x).2 := by
  have literal {cl : Class} (numeric : cl.lead = .digit) : cl.rank = 1 := by
    cases cl <;> first | rfl | cases numeric
  obtain ⟨cl, numeric, found⟩ := matchNumber_matches h
  refine ⟨cl, .of_group found fun cl' k' n' lead other => ?_⟩
  have numeric' : cl'.lead = .digit := lead.trans numeric
  obtain ⟨longest, same⟩ := matchNumber_longest numeric' other
  have ranks : cl.rank = cl'.rank := (literal numeric).trans (literal numeric').symm
  exact ⟨longest, fun equal => ⟨Nat.le_of_eq ranks, fun _ => same equal⟩⟩

end LetStack.Token
