import Mathlib.Computability.RegularExpressions
import LetStack.Proofs.Token.Number

/-!
Quoted literals as regular expressions over bytes. `charLength` and `stringLength` are the length of the longest match
(`quoted_lengths_longest`). `stringEnd` keeps flags for three positions in a ring; `Tracks` says what they mean for
the expression, and `Tracks.step` that a byte keeps this so.
-/

namespace LetStack.Token

open RegularExpression

/-! ## The patterns -/

/-- Any byte but one: `[^b]`. -/
def otherThan (b : UInt8) : RegularExpression UInt8 :=
  ((((List.range 256).map UInt8.ofNat).filter (· != b)).map char).sum

/-- What may stand in front of the last byte of a string: `(\\"|[^"])*`. -/
def stringBody : RegularExpression UInt8 := star (char 0x5C * char 0x22 + otherThan 0x22)

/-- Strings: `""|"(\\"|[^"])*[^\\]"`. -/
def stringPattern : RegularExpression UInt8 :=
  char 0x22 * char 0x22 + char 0x22 * stringBody * otherThan 0x5C * char 0x22

/-- Character literals: `'(\\'|[^']*[^\\])'`. -/
def charPattern : RegularExpression UInt8 :=
  char 0x27 * (char 0x5C * char 0x27 + star (otherThan 0x27) * otherThan 0x5C) * char 0x27

/-- The lengths of the texts of a pattern at the start of `x`. -/
def matchedLengths (pattern : RegularExpression UInt8) (x : Bytes) : Set Nat :=
  {n | n ≤ x.length ∧ x.take n ∈ pattern.matches'}

/-- `n` is the greatest number of a set, or `least` if the set is empty. -/
def GreatestOr (S : Set Nat) (least n : Nat) : Prop := IsGreatest S n ∨ S = ∅ ∧ n = least

variable {n : Nat} {S : Set Nat} {w u rest : Bytes} {b : UInt8}

theorem mem_matchedLengths {pattern : RegularExpression UInt8} {x : Bytes} :
    n ∈ matchedLengths pattern x ↔ ∃ w ∈ pattern.matches', w <+: x ∧ n = w.length := by
  constructor
  · rintro ⟨inside, matched⟩
    exact ⟨_, matched, List.take_prefix n x, (List.length_take_of_le inside).symm⟩
  · rintro ⟨w, matched, front, rfl⟩
    refine ⟨front.length_le, ?_⟩
    rwa [← List.prefix_iff_eq_take.1 front]

theorem GreatestOr.of_first {T : Set Nat} {found : Prop} [Decidable found] {m least : Nat}
    (split : ∀ k, k ∈ S ↔ found ∧ k = m ∨ k ∈ T) (above : ∀ k ∈ T, m ≤ k)
    (h : GreatestOr T (if found then m else least) n) : GreatestOr S least n := by
  rcases h with ⟨inside, greatest⟩ | ⟨rfl, rfl⟩
  · refine .inl ⟨(split n).2 (.inr inside), fun k hk => ?_⟩
    rcases (split k).1 hk with ⟨-, rfl⟩ | hk
    · exact above n inside
    · exact greatest hk
  · by_cases here : found
    · rw [if_pos here]
      refine .inl ⟨(split m).2 (.inl ⟨here, rfl⟩), fun k hk => ?_⟩
      rcases (split k).1 hk with ⟨-, rfl⟩ | hk
      · exact Nat.le_refl k
      · exact hk.elim
    · rw [if_neg here]
      refine .inr ⟨Set.eq_empty_of_forall_notMem fun k hk => ?_, rfl⟩
      exact ((split k).1 hk).elim (fun h => here h.1) id

theorem greatestOr_if (found : Prop) [Decidable found] (m : Nat) :
    GreatestOr {k | found ∧ k = m} 0 (if found then m else 0) :=
  .of_first (fun _ => (or_iff_left id).symm) (fun _ => False.elim) (.inr ⟨rfl, rfl⟩)

theorem GreatestOr.union {T : Set Nat} {m : Nat} (hS : GreatestOr S 0 m) (hT : GreatestOr T 0 n) :
    GreatestOr (S ∪ T) 0 (max m n) := by
  rcases hS with hS | ⟨rfl, rfl⟩
  · rcases hT with hT | ⟨rfl, rfl⟩
    · exact .inl (hS.union hT)
    · rw [Set.union_empty, Nat.max_zero]
      exact .inl hS
  · rw [Set.empty_union, Nat.zero_max]
    exact hT

theorem mem_sum_matches {rs : List (RegularExpression UInt8)} : w ∈ rs.sum.matches' ↔ ∃ r ∈ rs, w ∈ r.matches' := by
  induction rs with
  | nil => simp [Language.notMem_zero]
  | cons r rs ih => simp [Language.mem_add, ih]

theorem mem_char_matches : w ∈ (char b).matches' ↔ w = [b] := Iff.rfl

theorem mem_otherThan_matches : w ∈ (otherThan b).matches' ↔ ∃ c, c ≠ b ∧ w = [c] := by
  have all (c : UInt8) : c ∈ (List.range 256).map UInt8.ofNat :=
    List.mem_map.2 ⟨c.toNat, List.mem_range.2 c.toNat_lt, UInt8.ofNat_toNat⟩
  unfold otherThan
  rw [mem_sum_matches]
  constructor
  · rintro ⟨_, hr, hw⟩
    obtain ⟨c, hc, rfl⟩ := List.mem_map.1 hr
    exact ⟨c, by simpa using (List.mem_filter.1 hc).2, hw⟩
  · rintro ⟨c, hc, rfl⟩
    exact ⟨char c, List.mem_map.2 ⟨c, List.mem_filter.2 ⟨all c, by simpa using hc⟩, rfl⟩, rfl⟩

/-! ## Strings -/

theorem nil_mem_stringBody : [] ∈ stringBody.matches' := Language.nil_mem_kstar _

/-- What is appended to a body makes a body: anything but a quote, and a quote behind a backslash. -/
theorem append_mem_stringBody : u ++ [b] ∈ stringBody.matches' ↔
    u ∈ stringBody.matches' ∧ b ≠ 0x22 ∨ (∃ v ∈ stringBody.matches', u = v ++ [0x5C]) ∧ b = 0x22 := by
  have unfolded : u ++ [b] ∈ stringBody.matches' ↔ ∃ v ∈ stringBody.matches',
      ∃ part ∈ (char 0x5C * char 0x22 + otherThan 0x22).matches', v ++ part = u ++ [b] := by
    conv_lhs => rw [stringBody, matches'_star, ← Language.one_add_kstar_mul_self_eq_kstar]
    rw [Language.mem_add, Language.mem_one, Language.mem_mul]
    exact or_iff_right (by simp)
  rw [unfolded]
  constructor
  · rintro ⟨v, hv, _, escaped | other, whole⟩
    · obtain ⟨_, rfl, _, rfl, rfl⟩ := Language.mem_mul.1 escaped
      have whole : (v ++ [0x5C]) ++ [0x22] = u ++ [b] := by simpa using whole
      obtain ⟨rfl, hb⟩ := List.append_inj' whole rfl
      exact .inr ⟨⟨v, hv, rfl⟩, (List.cons.inj hb).1.symm⟩
    · obtain ⟨c, hc, rfl⟩ := mem_otherThan_matches.1 other
      obtain ⟨rfl, hb⟩ := List.append_inj' whole rfl
      cases hb
      exact .inl ⟨hv, hc⟩
  · rintro (⟨hu, hb⟩ | ⟨⟨v, hv, rfl⟩, rfl⟩)
    · exact ⟨u, hu, [b], .inr (mem_otherThan_matches.2 ⟨b, hb, rfl⟩), rfl⟩
    · refine ⟨v, hv, [0x5C, 0x22], .inl ?_, by simp⟩
      exact Language.mem_mul.2 ⟨[0x5C], rfl, [0x22], rfl, rfl⟩

/-- Behind these bytes of a string a quote may end it: the last of them is no backslash. -/
def Closing (u : Bytes) : Prop := ∃ v ∈ stringBody.matches', ∃ b, b ≠ 0x5C ∧ u = v ++ [b]

theorem mem_stringPattern : w ∈ stringPattern.matches' ↔ ∃ u, w = 0x22 :: (u ++ [0x22]) ∧ (u = [] ∨ Closing u) := by
  constructor
  · rintro (empty | closed)
    · obtain ⟨_, rfl, _, rfl, rfl⟩ := Language.mem_mul.1 empty
      exact ⟨[], rfl, .inl rfl⟩
    · obtain ⟨_, open', _, rfl, rfl⟩ := Language.mem_mul.1 closed
      obtain ⟨_, opened, _, last, rfl⟩ := Language.mem_mul.1 open'
      obtain ⟨_, rfl, v, hv, rfl⟩ := Language.mem_mul.1 opened
      obtain ⟨b, hb, rfl⟩ := mem_otherThan_matches.1 last
      exact ⟨v ++ [b], by simp, .inr ⟨v, hv, b, hb, rfl⟩⟩
  · rintro ⟨_, rfl, rfl | ⟨v, hv, b, hb, rfl⟩⟩
    · exact .inl (Language.mem_mul.2 ⟨[0x22], rfl, [0x22], rfl, rfl⟩)
    · have last : [b] ∈ (otherThan 0x5C).matches' := mem_otherThan_matches.2 ⟨b, hb, rfl⟩
      have quote : [0x22] ∈ (char (0x22 : UInt8)).matches' := mem_char_matches.2 rfl
      have closed := Language.append_mem_mul (Language.append_mem_mul (Language.append_mem_mul quote hv) last) quote
      rw [show 0x22 :: ((v ++ [b]) ++ [0x22]) = [0x22] ++ v ++ [b] ++ [0x22] by simp]
      exact .inr closed

/-! ## The ring of a string -/

theorem Window.flag_mark (w : Window) (p q : Nat) (v : Bool) :
    (w.mark p v).flag q = if p % 3 = q % 3 then v else w.flag q :=
  Vector.getElem_set (Nat.mod_lt p (by decide)) (Nat.mod_lt q (by decide))

theorem Window.anySet_eq_false {w : Window} : w.anySet = false ↔ ∀ p, w.flag p = false := by
  simp only [anySet, Bool.or_eq_false_iff]
  constructor
  · rintro ⟨⟨zero, one⟩, two⟩ p
    have slots : ∀ i, w.flags.get i = false := by simpa [Fin.forall_fin_succ] using ⟨zero, one, two⟩
    exact slots _
  · intro none
    exact ⟨⟨none 0, none 1⟩, none 2⟩

namespace StringRing
variable (r : StringRing) (p : Nat) (b : UInt8) (next? : Option UInt8)

theorem body_step_next : (r.step p b next?).body.flag (p + 1) = true ↔
    r.body.flag p = true ∧ b ≠ 0x22 ∨ r.body.flag (p + 1) = true := by
  have here : p % 3 ≠ (p + 1) % 3 := by omega
  by_cases inside : r.body.flag p <;> by_cases quote : b = 0x22 <;> by_cases escaped : b = 0x5C ∧ next? = some 0x22 <;>
    simp [step, inside, quote, escaped, Window.flag_mark, here]

theorem closing_step_next : (r.step p b next?).closing.flag (p + 1) = true ↔
    r.body.flag p = true ∧ b ≠ 0x5C ∨ r.closing.flag (p + 1) = true := by
  have here : p % 3 ≠ (p + 1) % 3 := by omega
  by_cases inside : r.body.flag p <;> by_cases slash : b = 0x5C <;>
    simp [step, inside, slash, Window.flag_mark, here]

theorem body_step_second : (r.step p b next?).body.flag (p + 2) = true ↔
    (r.body.flag p = true ∧ b = 0x5C) ∧ next? = some 0x22 ∨ r.body.flag (p + 2) = true := by
  have here : p % 3 ≠ (p + 2) % 3 := by omega
  have second : (p + 1) % 3 ≠ (p + 2) % 3 := by omega
  by_cases inside : r.body.flag p <;> by_cases quote : b = 0x22 <;> by_cases escaped : b = 0x5C ∧ next? = some 0x22 <;>
    simp [step, inside, quote, escaped, Window.flag_mark, here, second]

theorem closing_step_second : (r.step p b next?).closing.flag (p + 2) = r.closing.flag (p + 2) := by
  have here : p % 3 ≠ (p + 2) % 3 := by omega
  have second : (p + 1) % 3 ≠ (p + 2) % 3 := by omega
  by_cases inside : r.body.flag p <;> by_cases slash : b = 0x5C <;>
    simp [step, inside, slash, Window.flag_mark, here, second]

/-- The slot of a position is free for the third one behind it. -/
theorem step_third : (r.step p b next?).body.flag (p + 3) = false ∧ (r.step p b next?).closing.flag (p + 3) = false := by
  have same : (p + 3) % 3 = p % 3 := by omega
  have next : (p + 1) % 3 ≠ p % 3 := by omega
  have second : (p + 2) % 3 ≠ p % 3 := by omega
  by_cases inside : r.body.flag p <;> by_cases quote : b = 0x22 <;> by_cases slash : b = 0x5C <;>
    by_cases escaped : next? = some 0x22 <;>
    simp [step, inside, quote, slash, escaped, Window.flag_mark, same, next, second]

theorem step_of_clear (body : r.body.anySet = false) (closing : r.closing.anySet = false) :
    (r.step p b next?).body.anySet = false ∧ (r.step p b next?).closing.anySet = false := by
  rw [Window.anySet_eq_false] at body closing ⊢
  rw [Window.anySet_eq_false]
  simp [step, body, closing, Window.flag_mark]

end StringRing

/-- The flags at the position behind the bytes `u` of a string, in front of `rest`. At this position they say what `u`
can be, at the next one whether a quote comes next that is escaped by the last byte of `u`, and nothing at the third. -/
structure Tracks (u rest : Bytes) (r : StringRing) : Prop where
  body : r.body.flag (u.length + 1) = true ↔ u ∈ stringBody.matches'
  closing : r.closing.flag (u.length + 1) = true ↔ Closing u
  escape : r.body.flag (u.length + 2) = true ↔
    (∃ v ∈ stringBody.matches', u = v ++ [0x5C]) ∧ rest.head? = some 0x22
  notClosing : r.closing.flag (u.length + 2) = false
  vacant : r.body.flag (u.length + 3) = false ∧ r.closing.flag (u.length + 3) = false

theorem tracks_start (rest : Bytes) : Tracks [] rest .start where
  body := iff_of_true rfl nil_mem_stringBody
  closing := iff_of_false (by decide) (by simp [Closing])
  escape := iff_of_false (by decide) (by simp)
  notClosing := rfl
  vacant := ⟨rfl, rfl⟩

theorem Tracks.step {u rest : Bytes} {b : UInt8} {r : StringRing} (h : Tracks u (b :: rest) r) :
    Tracks (u ++ [b]) rest (r.step (u.length + 1) b rest.head?) := by
  have length : (u ++ [b]).length = u.length + 1 := by simp
  have last (v : Bytes) (c : UInt8) : u ++ [b] = v ++ [c] ↔ u = v ∧ b = c := by simp
  constructor
  case body =>
    rw [length, StringRing.body_step_next, h.body, h.escape, append_mem_stringBody, List.head?_cons, Option.some.injEq]
  case closing =>
    rw [length, StringRing.closing_step_next, h.body, h.notClosing]
    simp only [Bool.false_eq_true, or_false, Closing, last]
    constructor
    · rintro ⟨hu, hb⟩
      exact ⟨u, hu, b, hb, rfl, rfl⟩
    · rintro ⟨_, hv, _, hb, rfl, rfl⟩
      exact ⟨hv, hb⟩
  case escape =>
    rw [length, StringRing.body_step_second, h.body, h.vacant.1]
    simp [last]
  case notClosing =>
    rw [length, StringRing.closing_step_second]
    exact h.vacant.2
  case vacant =>
    rw [length]
    exact StringRing.step_third _ _ _ _

/-- The lengths of the strings that a quote in `rest` ends, behind the opening quote and the bytes `u`. -/
def endings (u rest : Bytes) : Set Nat :=
  {n | ∃ v, v ++ [0x22] <+: rest ∧ Closing (u ++ v) ∧ n = (u ++ v).length + 2}

theorem endings_nil (u : Bytes) : endings u [] = ∅ := by
  refine Set.eq_empty_of_forall_notMem ?_
  rintro n ⟨v, front, -⟩
  simp at front

theorem mem_endings_cons : n ∈ endings u (b :: rest) ↔
    (Closing u ∧ b = 0x22) ∧ n = u.length + 2 ∨ n ∈ endings (u ++ [b]) rest := by
  constructor
  · rintro ⟨_ | ⟨c, v⟩, front, closing, rfl⟩
    · have hb : b = 0x22 := (List.cons_prefix_cons.1 front).1.symm
      rw [List.append_nil] at closing ⊢
      exact .inl ⟨⟨closing, hb⟩, rfl⟩
    · obtain ⟨rfl, behind⟩ := List.cons_prefix_cons.1 front
      rw [List.append_cons] at closing ⊢
      exact .inr ⟨v, behind, closing, rfl⟩
  · rintro (⟨⟨closing, rfl⟩, rfl⟩ | ⟨v, front, closing, rfl⟩)
    · exact ⟨[], by simp, by simpa using closing, by simp⟩
    · rw [← List.append_cons] at closing ⊢
      exact ⟨b :: v, List.cons_prefix_cons.2 ⟨rfl, front⟩, closing, rfl⟩

theorem length_le_of_mem_endings (h : n ∈ endings u rest) : u.length + 2 ≤ n := by
  obtain ⟨v, -, -, rfl⟩ := h
  simp

theorem Tracks.endings_eq_empty {r : StringRing} (h : Tracks u rest r) (body : r.body.anySet = false)
    (closing : r.closing.anySet = false) : endings u rest = ∅ := by
  induction rest generalizing u r with
  | nil => exact endings_nil u
  | cons b rest ih =>
    obtain ⟨nextBody, nextClosing⟩ := r.step_of_clear (u.length + 1) b rest.head? body closing
    have behind := ih h.step nextBody nextClosing
    have unclosed : ¬Closing u := by
      rw [← h.closing, Window.anySet_eq_false.1 closing]
      exact Bool.false_ne_true
    refine Set.eq_empty_of_forall_notMem fun n member => ?_
    rcases mem_endings_cons.1 member with ⟨⟨closed, _⟩, _⟩ | later
    · exact unclosed closed
    · rw [behind] at later
      exact later

theorem stringEnd_greatest {r : StringRing} (h : Tracks u rest r) {best : Nat} (below : best ≤ u.length + 2) :
    GreatestOr (endings u rest) best (stringEnd r (u.length + 1) best rest) := by
  induction rest generalizing u r best with
  | nil => exact .inr ⟨endings_nil u, rfl⟩
  | cons b rest ih =>
    have length : (u ++ [b]).length = u.length + 1 := by simp
    have later : ∀ k ∈ endings (u ++ [b]) rest, u.length + 2 ≤ k := fun k hk =>
      Nat.le_trans (by simp) (length_le_of_mem_endings hk)
    refine GreatestOr.of_first (fun k => by rw [mem_endings_cons, ← h.closing]) later ?_
    unfold stringEnd
    extract_lets best' next
    have found : best' = if r.closing.flag (u.length + 1) = true ∧ b = 0x22 then u.length + 2 else best := by
      simp only [best']
      split
      · exact Nat.max_eq_right below
      · rfl
    have bounded : best' ≤ (u ++ [b]).length + 2 := by
      rw [found, length]
      split <;> omega
    rw [← found]
    split
    · have behind := ih h.step bounded
      rwa [length] at behind
    · next dead =>
      rw [not_or, Bool.not_eq_true, Bool.not_eq_true] at dead
      exact .inr ⟨h.step.endings_eq_empty dead.1 dead.2, rfl⟩

theorem mem_stringLengths : n ∈ matchedLengths stringPattern (0x22 :: rest) ↔
    rest.head? = some 0x22 ∧ n = 2 ∨ n ∈ endings [] rest := by
  rw [mem_matchedLengths]
  constructor
  · rintro ⟨_, matched, front, rfl⟩
    obtain ⟨u, rfl, closed⟩ := mem_stringPattern.1 matched
    have front := (List.cons_prefix_cons.1 front).2
    rcases closed with rfl | closing
    · obtain ⟨behind, rfl⟩ := front
      exact .inl ⟨rfl, rfl⟩
    · exact .inr ⟨u, front, closing, by simp⟩
  · rintro (⟨head, rfl⟩ | ⟨u, front, closing, rfl⟩)
    · obtain ⟨behind, rfl⟩ := List.head?_eq_some_iff.1 head
      exact ⟨[0x22, 0x22], mem_stringPattern.2 ⟨[], rfl, .inl rfl⟩, ⟨behind, rfl⟩, rfl⟩
    · refine ⟨_, mem_stringPattern.2 ⟨u, rfl, .inr closing⟩, List.cons_prefix_cons.2 ⟨rfl, front⟩, by simp⟩

theorem stringLength_greatest (rest : Bytes) :
    GreatestOr (matchedLengths stringPattern (0x22 :: rest)) 0 (stringLength (0x22 :: rest)) := by
  refine .of_first (fun _ => mem_stringLengths) (fun _ => length_le_of_mem_endings) ?_
  refine stringEnd_greatest (tracks_start rest) ?_
  split <;> simp

/-! ## Character literals -/

/-- What stands between the quotes of a character literal: `\'`, or a run without quotes with a byte behind it that
is no backslash but may be a quote. -/
def CharBody (u : Bytes) : Prop := u = [0x5C, 0x27] ∨ ∃ run b, 0x27 ∉ run ∧ b ≠ 0x5C ∧ u = run ++ [b]

theorem mem_star_otherThan : w ∈ (star (otherThan b)).matches' ↔ b ∉ w := by
  rw [matches'_star]
  constructor
  · rintro ⟨parts, rfl, all⟩ hb
    obtain ⟨part, hpart, hb⟩ := List.mem_flatten.1 hb
    obtain ⟨c, hc, rfl⟩ := mem_otherThan_matches.1 (all part hpart)
    exact hc (List.mem_singleton.1 hb).symm
  · intro hb
    refine ⟨w.map fun c => [c], (List.flatMap_singleton' w).symm, fun part hpart => ?_⟩
    obtain ⟨c, hc, rfl⟩ := List.mem_map.1 hpart
    exact mem_otherThan_matches.2 ⟨c, fun same => hb (same ▸ hc), rfl⟩

theorem mem_charPattern : w ∈ charPattern.matches' ↔ ∃ u, w = 0x27 :: (u ++ [0x27]) ∧ CharBody u := by
  have quote : [0x27] ∈ (char (0x27 : UInt8)).matches' := mem_char_matches.2 rfl
  have body {u : Bytes} :
      u ∈ (char 0x5C * char 0x27 + star (otherThan 0x27) * otherThan 0x5C).matches' ↔ CharBody u := by
    constructor
    · rintro (escaped | other)
      · obtain ⟨_, rfl, _, rfl, rfl⟩ := Language.mem_mul.1 escaped
        exact .inl rfl
      · obtain ⟨run, hrun, _, last, rfl⟩ := Language.mem_mul.1 other
        obtain ⟨b, hb, rfl⟩ := mem_otherThan_matches.1 last
        exact .inr ⟨run, b, mem_star_otherThan.1 hrun, hb, rfl⟩
    · rintro (rfl | ⟨run, b, hrun, hb, rfl⟩)
      · exact .inl (Language.mem_mul.2 ⟨[0x5C], rfl, [0x27], rfl, rfl⟩)
      · exact .inr (Language.append_mem_mul (mem_star_otherThan.2 hrun) (mem_otherThan_matches.2 ⟨b, hb, rfl⟩))
  constructor
  · intro matched
    obtain ⟨_, front, _, rfl, rfl⟩ := Language.mem_mul.1 matched
    obtain ⟨_, rfl, u, hu, rfl⟩ := Language.mem_mul.1 front
    exact ⟨u, rfl, body.1 hu⟩
  · rintro ⟨u, rfl, hu⟩
    exact Language.append_mem_mul (Language.append_mem_mul quote (body.2 hu)) quote

theorem mem_charLengths : n ∈ matchedLengths charPattern (0x27 :: rest) ↔
    ∃ u, u ++ [0x27] <+: rest ∧ CharBody u ∧ n = u.length + 2 := by
  rw [mem_matchedLengths]
  constructor
  · rintro ⟨_, matched, front, rfl⟩
    obtain ⟨u, rfl, body⟩ := mem_charPattern.1 matched
    exact ⟨u, (List.cons_prefix_cons.1 front).2, body, by simp⟩
  · rintro ⟨u, front, body, rfl⟩
    exact ⟨_, mem_charPattern.2 ⟨u, rfl, body⟩, List.cons_prefix_cons.2 ⟨rfl, front⟩, by simp⟩

theorem bne_of_notMem {run : Bytes} (h : b ∉ run) : ∀ c ∈ run, (c != b) = true :=
  fun _ hc => bne_iff_ne.2 fun same => h (same ▸ hc)

theorem countWhile_run {run behind : Bytes} (h : 0x27 ∉ run) :
    countWhile (· != 0x27) (run ++ 0x27 :: behind) = run.length := by
  rw [countWhile_append (bne_of_notMem h), countWhile_stop (by decide), Nat.add_zero]

theorem run_unique {p q x y : Bytes} (hp : 0x27 ∉ p) (hq : 0x27 ∉ q) (same : p ++ 0x27 :: x = q ++ 0x27 :: y) :
    p = q ∧ 0x27 :: x = 0x27 :: y := by
  have length : p.length = q.length := by rw [← countWhile_run hp, same, countWhile_run hq]
  exact List.append_inj same length

/-- Where the first quote stands decides: it closes the run in front of it, or is itself the last byte. -/
theorem charBody_ends {run behind : Bytes} (hrun : 0x27 ∉ run) :
    (u ++ [0x27] <+: run ++ 0x27 :: behind ∧ CharBody u) ↔
      [0x5C, 0x27, 0x27] <+: run ++ 0x27 :: behind ∧ u = [0x5C, 0x27] ∨
      (run ≠ [] ∧ run.getLast? ≠ some 0x5C) ∧ u = run ∨ behind.head? = some 0x27 ∧ u = run ++ [0x27] := by
  constructor
  · rintro ⟨⟨tail, front⟩, rfl | ⟨q, b, hq, hb, rfl⟩⟩
    · exact .inl ⟨⟨tail, front⟩, rfl⟩
    right
    by_cases quote : b = 0x27
    · subst quote
      have front : q ++ 0x27 :: 0x27 :: tail = run ++ 0x27 :: behind := by simpa using front
      obtain ⟨rfl, rest⟩ := run_unique hq hrun front
      cases rest
      exact .inr ⟨rfl, rfl⟩
    · have clean : 0x27 ∉ q ++ [b] := by
        simpa [hq] using fun h => quote h.symm
      have front : (q ++ [b]) ++ 0x27 :: tail = run ++ 0x27 :: behind := by simpa using front
      obtain ⟨rfl, -⟩ := run_unique clean hrun front
      exact .inl ⟨⟨by simp, by simpa using hb⟩, rfl⟩
  · rintro (⟨front, rfl⟩ | ⟨⟨some, last⟩, rfl⟩ | ⟨next, rfl⟩)
    · exact ⟨front, .inl rfl⟩
    · obtain ⟨q, b, rfl⟩ := (List.eq_nil_or_concat' _).resolve_left some
      have hb : b ≠ 0x5C := by simpa using last
      have hq : 0x27 ∉ q := fun hq => hrun (List.mem_append_left _ hq)
      exact ⟨⟨behind, by simp⟩, .inr ⟨q, b, hq, hb, rfl⟩⟩
    · obtain ⟨behind, rfl⟩ := List.head?_eq_some_iff.1 next
      exact ⟨⟨behind, by simp⟩, .inr ⟨run, 0x27, hrun, by decide, rfl⟩⟩

theorem charLength_run {run behind : Bytes} (hrun : 0x27 ∉ run) : charLength (0x27 :: (run ++ 0x27 :: behind)) =
    max (if [0x5C, 0x27, 0x27] <+: run ++ 0x27 :: behind then 4 else 0)
      (max (if run ≠ [] ∧ run.getLast? ≠ some 0x5C then run.length + 2 else 0)
        (if behind.head? = some 0x27 then run.length + 3 else 0)) := by
  have inside : run.length < (run ++ 0x27 :: behind).length := by simp
  have escaped : (run ++ 0x27 :: behind).take 3 = [0x5C, 0x27, 0x27] ↔
      [0x5C, 0x27, 0x27] <+: run ++ 0x27 :: behind := by
    rw [List.prefix_iff_eq_take]
    exact eq_comm
  have closed : 0 < run.length ∧ (run ++ 0x27 :: behind)[run.length - 1]? ≠ some 0x5C ↔
      run ≠ [] ∧ run.getLast? ≠ some 0x5C := by
    rw [List.length_pos_iff]
    refine and_congr_right fun some => ?_
    rw [List.getLast?_eq_getElem?, List.getElem?_append_left (Nat.sub_one_lt (List.length_pos_iff.2 some).ne')]
  have next : (run ++ 0x27 :: behind)[run.length + 1]? = behind.head? := by
    rw [List.getElem?_append_right (Nat.le_add_right _ 1), Nat.add_sub_cancel_left]
    exact List.head?_eq_getElem?.symm
  simp only [charLength, countWhile_run hrun, if_pos inside, escaped, closed, next]

theorem charLength_greatest (rest : Bytes) :
    GreatestOr (matchedLengths charPattern (0x27 :: rest)) 0 (charLength (0x27 :: rest)) := by
  by_cases quote : 0x27 ∈ rest
  · obtain ⟨run, behind, rfl, hrun⟩ := List.eq_append_cons_of_mem quote
    have lengths : matchedLengths charPattern (0x27 :: (run ++ 0x27 :: behind)) =
        {k | [0x5C, 0x27, 0x27] <+: run ++ 0x27 :: behind ∧ k = 4} ∪
          ({k | (run ≠ [] ∧ run.getLast? ≠ some 0x5C) ∧ k = run.length + 2} ∪
            {k | behind.head? = some 0x27 ∧ k = run.length + 3}) := by
      ext k
      simp only [mem_charLengths, ← and_assoc, charBody_ends hrun, or_and_right, exists_or]
      simp
    rw [charLength_run hrun, lengths]
    exact (greatestOr_if _ _).union ((greatestOr_if _ _).union (greatestOr_if _ _))
  · -- without a second quote nothing is closed
    have none : matchedLengths charPattern (0x27 :: rest) = ∅ := by
      refine Set.eq_empty_of_forall_notMem fun k hk => ?_
      obtain ⟨u, front, -⟩ := mem_charLengths.1 hk
      exact quote (front.subset (by simp))
    have whole : countWhile (· != 0x27) rest = rest.length := by
      have counted := countWhile_append (bne_of_notMem quote) []
      rwa [List.append_nil] at counted
    have escaped : rest.take 3 ≠ [0x5C, 0x27, 0x27] := fun same =>
      quote (List.mem_of_mem_take (same ▸ by simp : 0x27 ∈ rest.take 3))
    refine .inr ⟨none, ?_⟩
    simp only [charLength, whole, Nat.lt_irrefl, if_false, if_neg escaped]

/-! ## Quoted literals in any text -/

theorem GreatestOr.mem (h : GreatestOr S 0 n) (positive : 0 < n) : n ∈ S := by
  rcases h with greatest | ⟨_, rfl⟩
  · exact greatest.1
  · exact absurd positive (Nat.lt_irrefl 0)

theorem GreatestOr.le {least k : Nat} (h : GreatestOr S least n) (member : k ∈ S) : k ≤ n := by
  rcases h with greatest | ⟨rfl, _⟩
  · exact greatest.2 member
  · exact member.elim

theorem greatestOr_of_quote {pattern : RegularExpression UInt8} {quote : UInt8} {length : Bytes → Nat}
    (matched : ∀ w ∈ pattern.matches', w.head? = some quote) (measured : ∀ x, 0 < length x → x.head? = some quote)
    (quoted : ∀ rest, GreatestOr (matchedLengths pattern (quote :: rest)) 0 (length (quote :: rest))) (x : Bytes) :
    GreatestOr (matchedLengths pattern x) 0 (length x) := by
  by_cases head : x.head? = some quote
  · obtain ⟨rest, rfl⟩ := List.head?_eq_some_iff.1 head
    exact quoted rest
  · refine .inr ⟨Set.eq_empty_of_forall_notMem fun n member => ?_, Nat.eq_zero_of_not_pos fun some => ?_⟩
    · obtain ⟨w, text, ⟨rest, rfl⟩, _⟩ := mem_matchedLengths.1 member
      exact head (List.head?_append_of_ne_nil w (by rintro rfl; cases matched _ text) ▸ matched w text)
    · exact head (measured x some)

theorem charLength_longest (x : Bytes) : GreatestOr (matchedLengths charPattern x) 0 (charLength x) := by
  refine greatestOr_of_quote (fun w text => ?_) (fun _ => head_of_charLength) charLength_greatest x
  obtain ⟨u, rfl, _⟩ := mem_charPattern.1 text
  rfl

theorem stringLength_longest (x : Bytes) : GreatestOr (matchedLengths stringPattern x) 0 (stringLength x) := by
  refine greatestOr_of_quote (fun w text => ?_) (fun _ => head_of_stringLength) stringLength_greatest x
  obtain ⟨u, rfl, _⟩ := mem_stringPattern.1 text
  rfl

end LetStack.Token
