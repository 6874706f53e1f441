import LetStack.Lower.Literal

/-!
Decoding a literal never asks for bytes outside of it. `escapeAt?` and `unescape?` slice a text at computed offsets,
and are none if these are out of range. `escapeAt` and `unescape` decode the same text from its front; both agree on
every text (`escapeAt?_eq`, `unescape?_eq`), so `lowerLiteral` comes to an instruction or a fault (`lowerLiteral_eq`).
-/

namespace LetStack.Lower
open Ast Machine

/-! ## Decoding from the front -/

/-- The escape at the start of a text that starts with a backslash: its length and the character it
stands for, or the length of what is no escape. -/
def escapeAt : Bytes → Except Nat (Nat × Char)
  | _ :: 0x6E :: _ => .ok (2, '\n')
  | _ :: 0x72 :: _ => .ok (2, '\r')
  | _ :: 0x74 :: _ => .ok (2, '\t')
  | _ :: 0x30 :: _ => .ok (2, Char.ofNat 0)
  | _ :: 0x5C :: _ => .ok (2, '\\')
  | _ :: 0x27 :: _ => .ok (2, '\'')
  | _ :: 0x22 :: _ => .ok (2, '"')
  | _ :: 0x75 :: 0x7B :: rest =>
    let hex := rest.takeWhile (· != 0x7D)
    if hex.length = rest.length then .error 2 else scalarOf hex (hex.length + 4)
  | _ :: _ :: _ => .error 2
  | _ => .error 1

theorem escapeAt_pos {x : Bytes} {n : Nat} {c : Char} (h : escapeAt x = .ok (n, c)) : 0 < n := by
  unfold escapeAt at h
  split at h
  case h_8 =>
    extract_lets hex at h
    split at h
    · cases h
    rw [scalarOf_ok h]
    exact Nat.succ_pos _
  all_goals cases h
  all_goals exact Nat.succ_pos _

/-- The body of a quoted literal with its escapes decoded; `offset` counts the bytes before. -/
def unescapeFrom (offset : Nat) (x : Bytes) : Except BadEscape Bytes :=
  match x with
  | [] => .ok []
  | b :: rest =>
    if b = 0x5C then
      match _ : escapeAt (b :: rest) with
      | .error n => .error ⟨offset, (b :: rest).take n⟩
      | .ok (n, c) => (unescapeFrom (offset + n) ((b :: rest).drop n)).map (Utf8.encode c ++ ·)
    else (unescapeFrom (offset + 1) rest).map (b :: ·)
termination_by x.length
decreasing_by
  · rename_i h
    have := escapeAt_pos h
    simp only [List.length_drop, List.length_cons]; omega
  · simp

theorem unescapeFrom_of_error {rest : Bytes} {n : Nat} (h : escapeAt (0x5C :: rest) = .error n) (offset : Nat) :
    unescapeFrom offset (0x5C :: rest) = .error ⟨offset, (0x5C :: rest).take n⟩ := by
  rw [unescapeFrom, if_pos rfl]
  split
  · next same =>
    rw [h] at same
    cases same
    rfl
  · next same =>
    rw [h] at same
    cases same

theorem unescapeFrom_of_ok {rest : Bytes} {n : Nat} {c : Char} (h : escapeAt (0x5C :: rest) = .ok (n, c))
    (offset : Nat) :
    unescapeFrom offset (0x5C :: rest) =
      (unescapeFrom (offset + n) ((0x5C :: rest).drop n)).map (Utf8.encode c ++ ·) := by
  rw [unescapeFrom, if_pos rfl]
  split
  · next same =>
    rw [h] at same
    cases same
  · next same =>
    rw [h] at same
    cases same
    rfl

/-- The text between the quotes of a literal, escapes decoded. -/
def unescape (raw : Bytes) (span : Span) : Except Fault Bytes :=
  if raw.length < 2 then .error (.internal span ("literal " ++ Text.quote raw ++ " has no quotes"))
  else
    match unescapeFrom 0 ((raw.drop 1).take (raw.length - 2)) with
    | .ok s => .ok s
    | .error bad =>
      .error (.user .invalidEscape (escapeSpan span (bad.offset + 1) bad.text.length)
        ("unknown escape sequence `" ++ bad.text ++ "`"))

def literalInstr (kind : Tag LiteralKind) (raw : Bytes) (span : Span) : Except Fault Instr :=
  instrOf kind raw span (unescape raw span)

/-! ## Slices in range -/

theorem slice?_of_le {x : Bytes} {first last : Nat} (order : first ≤ last) (inside : last ≤ x.length) :
    x.slice? first last = some ((x.take last).drop first) :=
  if_pos ⟨order, inside⟩

theorem slice?_to_end {x : Bytes} {first : Nat} (inside : first ≤ x.length) :
    x.slice? first x.length = some (x.drop first) := by
  rw [slice?_of_le inside (Nat.le_refl _), List.take_length]

theorem idxOf?_eq_takeWhile (b : UInt8) (x : Bytes) :
    x.idxOf? b = if (x.takeWhile (· != b)).length = x.length then none else some (x.takeWhile (· != b)).length := by
  induction x with
  | nil => rfl
  | cons a x ih =>
    by_cases same : a = b
    · subst same
      simp [List.idxOf?_cons]
    · rw [List.idxOf?_cons, if_neg (by simpa using same), ih, List.takeWhile_cons_of_pos (by simpa using same)]
      simp only [List.length_cons, Nat.add_right_cancel_iff]
      split <;> rfl

/-- The number of an escape is cut out between its brackets, which are in order. -/
theorem escapeAt?_number (digits : Bytes) :
    escapeAt? (0x5C :: 0x75 :: 0x7B :: digits) = some (escapeAt (0x5C :: 0x75 :: 0x7B :: digits)) := by
  have front : digits.takeWhile (· != 0x7D) <+: digits := List.takeWhile_prefix _
  have place : (0x5C :: 0x75 :: 0x7B :: digits : Bytes).idxOf? 0x7D =
      if (digits.takeWhile (· != 0x7D)).length = digits.length then none
      else some ((digits.takeWhile (· != 0x7D)).length + 3) := by
    rw [idxOf?_eq_takeWhile]
    simp
  rw [escapeAt?, escapeAt]
  generalize digits.takeWhile (· != 0x7D) = hex at front place
  simp only [List.getElem?_cons_succ, List.getElem?_cons_zero, place]
  by_cases unclosed : hex.length = digits.length
  · rw [if_pos unclosed, if_pos unclosed]
  · have shorter := front.length_le
    have cut : Bytes.slice? (0x5C :: 0x75 :: 0x7B :: digits) 3 (hex.length + 3) = some hex := by
      rw [slice?_of_le (Nat.le_add_left 3 _) (by simp only [List.length_cons]; omega)]
      exact congrArg some (List.prefix_iff_eq_take.1 front).symm
    have bracket : ¬((0x5C :: 0x75 :: 0x7B :: digits : Bytes).length < 4 ∨ some (0x7B : UInt8) ≠ some 0x7B) := by
      have : 1 ≤ digits.length := by omega
      simpa using this
    rw [if_neg unclosed, if_neg unclosed]
    simp only [if_neg bracket, cut]
    rfl

theorem escapeAt?_eq (rest : Bytes) : escapeAt? (0x5C :: rest) = some (escapeAt (0x5C :: rest)) := by
  unfold escapeAt
  split
  case h_8 digits same =>
    obtain ⟨_, rfl⟩ := List.cons.inj same
    exact escapeAt?_number digits
  case h_9 b tail newline carriage tab nul backslash apostrophe quote number same =>
    obtain ⟨_, rfl⟩ := List.cons.inj same
    unfold escapeAt?
    simp only [List.getElem?_cons_succ, List.getElem?_cons_zero]
    split
    · next none => cases none
    · next found => exact absurd (Option.some.inj found) newline
    · next found => exact absurd (Option.some.inj found) carriage
    · next found => exact absurd (Option.some.inj found) tab
    · next found => exact absurd (Option.some.inj found) nul
    · next found => exact absurd (Option.some.inj found) backslash
    · next found => exact absurd (Option.some.inj found) apostrophe
    · next found => exact absurd (Option.some.inj found) quote
    · next found =>
      obtain rfl := Option.some.inj found
      have other : tail[0]? ≠ some 0x7B := by
        intro bracket
        cases tail with
        | nil => cases bracket
        | cons c digits =>
          obtain rfl := Option.some.inj bracket
          exact number digits rfl rfl
      split
      · rfl
      · rw [if_pos (.inr other)]
    · rfl
  case h_10 alone =>
    cases rest with
    | nil => rfl
    | cons b tail => exact absurd rfl (alone 0x5C b tail)
  all_goals
    next same =>
    obtain ⟨_, rfl⟩ := List.cons.inj same
    rfl

theorem drop_eq_cons {x : Bytes} {i : Nat} {b : UInt8} (h : x[i]? = some b) : x.drop i = b :: x.drop (i + 1) := by
  obtain ⟨inside, same⟩ := List.getElem?_eq_some_iff.1 h
  rw [List.drop_eq_getElem_cons inside, same]

theorem escapeAt?_slice {body : Bytes} {i : Nat} (slash : body[i]? = some 0x5C) :
    (body.slice? i body.length).bind escapeAt? = some (escapeAt (body.drop i)) := by
  obtain ⟨inside, _⟩ := List.getElem?_eq_some_iff.1 slash
  rw [slice?_to_end (Nat.le_of_lt inside), drop_eq_cons slash]
  exact escapeAt?_eq _

theorem slice?_min {body : Bytes} {i : Nat} (inside : i ≤ body.length) (n : Nat) :
    body.slice? i (i + min n (body.length - i)) = some ((body.drop i).take n) := by
  rw [slice?_of_le (Nat.le_add_right _ _) (by omega), List.drop_take, Nat.add_sub_cancel_left, ← List.length_drop,
    ← List.take_eq_take_min]

/-- Decoding from an offset on is decoding what lies behind the offset. -/
theorem unescapeFrom?_eq (body : Bytes) (i : Nat) : unescapeFrom? body i = some (unescapeFrom i (body.drop i)) := by
  fun_induction unescapeFrom? body i with
  | case1 i outside =>
    rw [List.drop_eq_nil_of_le (List.getElem?_eq_none_iff.1 outside), unescapeFrom]
  | case2 i out slash =>
    rw [escapeAt?_slice slash] at out
    cases out
  | case3 i n failed slash =>
    obtain ⟨inside, _⟩ := List.getElem?_eq_some_iff.1 slash
    rw [escapeAt?_slice slash, drop_eq_cons slash] at failed
    rw [slice?_min (Nat.le_of_lt inside), drop_eq_cons slash, unescapeFrom_of_error (Option.some.inj failed)]
    rfl
  | case4 i n c found slash ih =>
    rw [escapeAt?_slice slash, drop_eq_cons slash] at found
    rw [ih, drop_eq_cons slash, unescapeFrom_of_ok (Option.some.inj found), ← drop_eq_cons slash, List.drop_drop]
    rfl
  | case5 i b inside other ih =>
    rw [ih, drop_eq_cons inside, unescapeFrom, if_neg other]
    rfl

theorem unescape?_eq (raw : Bytes) (span : Span) : unescape? raw span = some (unescape raw span) := by
  unfold unescape? unescape
  split
  · rfl
  · next long =>
    have body : raw.slice? 1 (raw.length - 1) = some ((raw.drop 1).take (raw.length - 2)) := by
      rw [slice?_of_le (by omega) (by omega), List.drop_take]
      rfl
    rw [body]
    show (unescapeFrom? ((raw.drop 1).take (raw.length - 2)) 0).bind _ = _
    rw [unescapeFrom?_eq, List.drop_zero]
    show (match unescapeFrom 0 ((raw.drop 1).take (raw.length - 2)) with | .ok s => _ | .error bad => _) = _
    split <;> rfl

theorem instrOf_literalText {kind : Tag LiteralKind} {raw : Bytes} {span : Span} {text : Except Fault Bytes}
    (h : literalText? kind raw span = some text) : instrOf kind raw span text = literalInstr kind raw span := by
  unfold literalText? at h
  split at h
  · rw [unescape?_eq] at h
    rw [literalInstr, Option.some.inj h]
  · next unquoted =>
    rw [not_or] at unquoted
    unfold literalInstr instrOf
    split
    all_goals first | rfl | exact absurd rfl unquoted.1 | exact absurd rfl unquoted.2

theorem lowerLiteral_eq (kind : Tag LiteralKind) (raw : Bytes) (span : Span) :
    lowerLiteral kind raw span = .ofInstr span (literalInstr kind raw span) := by
  unfold lowerLiteral
  split
  · next out =>
    unfold literalText? at out
    split at out
    · rw [unescape?_eq] at out
      cases out
    · cases out
  · next text found => rw [instrOf_literalText found]

end LetStack.Lower
