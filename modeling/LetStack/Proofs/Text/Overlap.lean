import LetStack.Proofs.Text.Boundary

/-!
Characters do not overlap in any text: where one ends inside another both are the same (`eq_of_suffix`), and none
starts behind the first byte of another (`not_startsWith_inside`). The bytes of no character come in runs
(`StrayRun`), of which no two overlap (`StrayRun.unique`).
-/

namespace LetStack.Utf8

theorem isContinuation_byte {n : Nat} (fits : n < 256) :
    isContinuation (UInt8.ofNat n) = true ↔ 128 ≤ n ∧ n ≤ 191 := by
  rw [isContinuation_iff, toNat_byte fits]

/-- The first byte of a character can follow no other one, and the bytes behind it only can. -/
theorem encode_bytes (c : Char) :
    ∃ b tail, encode c = b :: tail ∧ isContinuation b = false ∧ ∀ d ∈ tail, isContinuation d = true := by
  have valid : c.val.toNat.isValidChar := c.valid
  unfold encode String.utf8EncodeChar
  generalize c.val.toNat = v at valid ⊢
  unfold Nat.isValidChar at valid
  have first {n : Nat} (fits : n < 256) (other : n < 128 ∨ 191 < n) : isContinuation (UInt8.ofNat n) = false := by
    rw [← Bool.not_eq_true, isContinuation_byte fits]
    omega
  have later {n : Nat} (range : 128 ≤ n ∧ n ≤ 191) : isContinuation (UInt8.ofNat n) = true :=
    (isContinuation_byte (by omega)).2 range
  dsimp only
  -- one case for each number of bytes
  split
  · exact ⟨_, _, rfl, first (by omega) (by omega), fun _ member => absurd member List.not_mem_nil⟩
  split
  · exact ⟨_, _, rfl, first (by omega) (by omega), List.forall_mem_singleton.2 (later (by omega))⟩
  split
  · refine ⟨_, _, rfl, first (by omega) (by omega), List.forall_mem_cons.2 ⟨later (by omega), ?_⟩⟩
    exact List.forall_mem_singleton.2 (later (by omega))
  · refine ⟨_, _, rfl, first (by omega) (by omega), List.forall_mem_cons.2 ⟨later (by omega), ?_⟩⟩
    exact List.forall_mem_cons.2 ⟨later (by omega), List.forall_mem_singleton.2 (later (by omega))⟩

theorem not_startsWith_inside {c d : Char} {front back rest : Bytes} (split : encode d = front ++ back)
    (before : front ≠ []) (inside : back ≠ []) : ¬encode c <+: back ++ rest := by
  obtain ⟨b, tail, first, start, _⟩ := encode_bytes c
  obtain ⟨b', tail', first', _, later⟩ := encode_bytes d
  obtain ⟨x, front, rfl⟩ := List.exists_cons_of_ne_nil before
  obtain ⟨y, back, rfl⟩ := List.exists_cons_of_ne_nil inside
  rw [first]
  intro same
  have head : b = y := (List.cons_prefix_cons.1 same).1
  have behind : y ∈ tail' := by
    rw [split] at first'
    rw [← (List.cons.inj first').2]
    exact List.mem_append_right front List.mem_cons_self
  have := later y behind
  rw [← head, start] at this
  cases this

theorem eq_of_suffix {c d : Char} {before front back : Bytes} (split : encode d = front ++ back)
    (some : front ≠ []) (h : encode c <:+ before ++ front) : c = d ∧ back = [] := by
  -- where the two start at one place, the bytes of the first are those that the second starts with
  have together (same : encode c = front) : c = d ∧ back = [] := by
    have found := decode?_encode c back
    rw [same, ← split, ← List.append_nil (encode d), decode?_encode] at found
    cases found
    rw [same] at split
    exact ⟨rfl, (List.self_eq_append_right.1 split)⟩
  obtain ⟨u, whole⟩ := h
  rcases List.append_eq_append_iff.1 whole with ⟨v, rfl, bytes⟩ | ⟨v, rfl, rfl⟩
  · cases v with
    | nil => exact together bytes
    | cons b v =>
      have inside := @not_startsWith_inside d c _ _ back bytes (List.cons_ne_nil b v) some
      exact absurd (split ▸ List.prefix_rfl) inside
  · cases v with
    | nil => exact together rfl
    | cons b v =>
      have inside := @not_startsWith_inside c d _ _ [] (split.trans (List.append_assoc ..))
        (List.cons_ne_nil b v) (List.append_ne_nil_of_left_ne_nil (encode_ne_nil c) back)
      rw [List.append_nil] at inside
      exact absurd (List.prefix_append (encode c) back) inside

/-! ## Where characters start and end -/

/-- A character starts at an offset of a text. -/
def StartsAt (x : Bytes) (n : Nat) : Prop := ∃ c, encode c <+: x.drop n

/-- A character ends at an offset of a text. -/
def EndsAt (x : Bytes) (n : Nat) : Prop := ∃ c, encode c <:+ x.take n

theorem startsAt_append {u v : Bytes} : StartsAt (u ++ v) u.length ↔ ∃ c, decode? v = some c := by
  rw [StartsAt, List.drop_left]
  refine exists_congr fun c => ?_
  rw [decode?_eq_some_iff]
  exact exists_congr fun _ => eq_comm

theorem endsAt_append {u v : Bytes} : EndsAt (u ++ v) u.length ↔ ∃ c, encode c <:+ u := by
  rw [EndsAt, List.take_left]

theorem Encoded.ends {y : Bytes} (h : Encoded y) (nonempty : y ≠ []) (u : Bytes) : ∃ c, encode c <:+ u ++ y := by
  obtain ⟨cs, rfl⟩ := h
  rcases List.eq_nil_or_concat cs with rfl | ⟨cs, c, rfl⟩
  · exact absurd rfl nonempty
  · refine ⟨c, u ++ ofChars cs, ?_⟩
    rw [List.concat_eq_append, ofChars_append, List.append_assoc, ofChars_cons, ofChars_nil, List.append_nil]

/-- In a stretch of characters one starts at every place, or else the place is inside of one and none ends there. -/
theorem Encoded.startsAt_or {u y v : Bytes} (h : Encoded y) {n : Nat} (inside : n < y.length) :
    StartsAt (u ++ (y ++ v)) (u.length + n) ∨ 0 < n ∧ ¬EndsAt (u ++ (y ++ v)) (u.length + n) := by
  obtain ⟨cs, rfl⟩ := h
  induction cs generalizing u n with
  | nil => cases inside
  | cons c cs ih =>
    rw [ofChars_cons] at inside ⊢
    rcases Nat.lt_or_ge n (encode c).length with short | long
    · rcases Nat.eq_zero_or_pos n with rfl | positive
      · rw [List.append_assoc]
        exact .inl (startsAt_append.2 ⟨c, decode?_encode c _⟩)
      · refine .inr ⟨positive, ?_⟩
        have cut := List.take_append_drop n (encode c)
        have some : (encode c).take n ≠ [] := List.ne_nil_of_length_pos (by rw [List.length_take]; omega)
        have place : u.length + n = (u ++ (encode c).take n).length := by
          rw [List.length_append, List.length_take_of_le (Nat.le_of_lt short)]
        rw [← cut, place, List.append_assoc, List.append_assoc, ← List.append_assoc, endsAt_append]
        rintro ⟨d, ended⟩
        have nothing := congrArg List.length (eq_of_suffix cut.symm some ended).2
        rw [List.length_drop, List.length_nil] at nothing
        omega
    · obtain ⟨k, rfl⟩ := Nat.exists_eq_add_of_le long
      rw [List.length_append] at inside
      have later := @ih (u ++ encode c) k (Nat.lt_of_add_lt_add_left inside)
      rw [List.length_append, Nat.add_assoc] at later
      rw [List.append_assoc, ← List.append_assoc]
      rcases later with starts | ⟨_, inner⟩
      · exact .inl starts
      · exact .inr ⟨Nat.lt_of_lt_of_le (List.length_pos_iff.2 (encode_ne_nil c)) long, inner⟩

/-- Between two places where characters end, or the beginning and one, a character starts. -/
theorem exists_startsAt_between {x : Bytes} {m n : Nat} (first : m = 0 ∨ EndsAt x m) (last : EndsAt x n)
    (before : m < n) (inside : n ≤ x.length) : ∃ k, m ≤ k ∧ k < n ∧ StartsAt x k := by
  obtain ⟨c, u, split⟩ := last
  have size := congrArg List.length split
  rw [List.length_append, List.length_take_of_le inside] at size
  have some := List.length_pos_iff.2 (encode_ne_nil c)
  refine ⟨u.length, ?_, by omega, c, ?_⟩
  · rcases first with rfl | ⟨d, ended⟩
    · exact Nat.zero_le _
    · -- a character that starts in front of `m` would have `m` inside
      refine Nat.le_of_not_lt fun early => ?_
      have cut : x.take m = u ++ (encode c).take (m - u.length) := by
        have shorter : (x.take n).take m = x.take m := by
          rw [List.take_take, Nat.min_eq_left (Nat.le_of_lt before)]
        rw [← shorter, ← split, List.take_append, List.take_of_length_le (Nat.le_of_lt early)]
      rw [cut] at ended
      have front : (encode c).take (m - u.length) ≠ [] := List.ne_nil_of_length_pos (by rw [List.length_take]; omega)
      have nothing := (eq_of_suffix (List.take_append_drop _ (encode c)).symm front ended).2
      rw [List.drop_eq_nil_iff] at nothing
      omega
  · rw [← List.take_append_drop n x, ← split, List.append_assoc, List.drop_left]
    exact List.prefix_append _ _

/-! ## Bytes of no character -/

/-- A run of bytes that are no part of a character: from the beginning of the text or the end of a character up to the
end of the text or the next character. -/
structure StrayRun (x : Bytes) (a b : Nat) : Prop where
  nonempty : a < b
  inside : b ≤ x.length
  stray : ∀ n, a ≤ n → n < b → ¬StartsAt x n
  front : a = 0 ∨ EndsAt x a
  back : b = x.length ∨ StartsAt x b

theorem StrayRun.stop_le {x : Bytes} {a b c : Nat} (h : StrayRun x a b) (h' : StrayRun x a c) : c ≤ b := by
  rcases h.back with ended | starts
  · exact ended ▸ h'.inside
  · refine Nat.le_of_not_lt fun early => ?_
    exact h'.stray b (Nat.le_of_lt h.nonempty) early starts

theorem StrayRun.unique {x : Bytes} {a b p q : Nat} (h : StrayRun x a b) (h' : StrayRun x p q) (first : p ≤ a)
    (meets : a < q) : a = p ∧ b = q := by
  have same : a = p := by
    refine Nat.le_antisymm (Nat.le_of_not_lt fun behind => ?_) first
    have ended : EndsAt x a := h.front.resolve_left (Nat.ne_of_gt (Nat.zero_lt_of_lt behind))
    have inside : a ≤ x.length := Nat.le_trans (Nat.le_of_lt h.nonempty) h.inside
    obtain ⟨n, from', before, starts⟩ := exists_startsAt_between h'.front ended behind inside
    exact h'.stray n from' (Nat.lt_trans before meets) starts
  subst same
  exact ⟨rfl, Nat.le_antisymm (h'.stop_le h) (h.stop_le h')⟩

theorem Encoded.not_strayRun {u y v : Bytes} (h : Encoded y) {n : Nat} (inside : n < y.length) {b : Nat} :
    ¬StrayRun (u ++ (y ++ v)) (u.length + n) b := by
  intro run
  rcases h.startsAt_or inside with starts | ⟨positive, inner⟩
  · exact run.stray _ (Nat.le_refl _) run.nonempty starts
  · exact inner (run.front.resolve_left (by omega))

end LetStack.Utf8
