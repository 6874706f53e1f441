import LetStack.Decimal.Integer
import LetStack.Lower.Fault

/-!
Lowering literals. Integers are read exactly and must fit 64 bits, other numbers are rounded to the
nearest floating-point number, and the escapes of quoted literals are decoded.
-/

namespace LetStack.Lower
open Ast Machine

/-! ## Integers -/

/-- The digits of an integer literal and their base: `0b`, `0o` and `0x` in front of digits, else
ten. -/
def intDigits : Bytes → Bytes × Nat
  | 0x30 :: base :: d :: rest =>
    if base = 0x62 then (d :: rest, 2)
    else if base = 0x6F then (d :: rest, 8)
    else if base = 0x78 then (d :: rest, 16)
    else (0x30 :: base :: d :: rest, 10)
  | raw => (raw, 10)

/-- Whether a literal is 2^63, which fits only with a minus sign. -/
def isMinMagnitude (raw : Bytes) : Bool :=
  match Integer.readUnsigned (intDigits raw).1 (intDigits raw).2 with
  | .ok n => n = 0x8000000000000000
  | .error _ => false

/-! ## Escapes -/

/-- An escape of `n` bytes with a number of some hexadecimal digits, six at most: the character with this number. -/
def scalarOf (hex : Bytes) (n : Nat) : Except Nat (Nat × Char) :=
  if hex.length = 0 ∨ 6 < hex.length then .error n
  else
    match Integer.readUnsigned hex 16 with
    | .ok v => if v < 0xD800 ∨ (0xDFFF < v ∧ v ≤ 0x10FFFF) then .ok (n, Char.ofNat v) else .error n
    | .error _ => .error n

theorem scalarOf_ok {hex : Bytes} {n m : Nat} {c : Char} (h : scalarOf hex n = .ok (m, c)) : m = n := by
  unfold scalarOf at h
  split at h
  · cases h
  split at h
  · split at h <;> cases h
    rfl
  · cases h

/-- The escape at the start of a text that starts with a backslash: its length and the character it
stands for, or the length of what is no escape. None if bytes outside of the text are asked for. -/
def escapeAt? (s : Bytes) : Option (Except Nat (Nat × Char)) :=
  match (s[1]? : Option UInt8) with
  | none => some (.error 1)
  | some 0x6E => some (.ok (2, '\n'))
  | some 0x72 => some (.ok (2, '\r'))
  | some 0x74 => some (.ok (2, '\t'))
  | some 0x30 => some (.ok (2, Char.ofNat 0))
  | some 0x5C => some (.ok (2, '\\'))
  | some 0x27 => some (.ok (2, '\''))
  | some 0x22 => some (.ok (2, '"'))
  | some 0x75 =>
    match s.idxOf? 0x7D with
    | none => some (.error 2)
    | some brace =>
      if s.length < 4 ∨ s[2]? ≠ some 0x7B then some (.error 2)
      else (s.slice? 3 brace).map fun hex => scalarOf hex (brace + 1)
  | some _ => some (.error 2)

theorem escapeAt?_pos {s : Bytes} {n : Nat} {c : Char} (h : escapeAt? s = some (.ok (n, c))) : 0 < n := by
  unfold escapeAt? at h
  split at h
  case h_9 =>
    split at h
    · cases h
    split at h
    · cases h
    obtain ⟨hex, _, same⟩ := Option.map_eq_some_iff.1 h
    rw [scalarOf_ok same]
    exact Nat.succ_pos _
  all_goals cases h
  all_goals exact Nat.succ_pos _

/-- An escape that is none: its offset in the body and its bytes. -/
structure BadEscape where
  offset : Nat
  text : Bytes
  deriving DecidableEq, Repr

/-- The body of a quoted literal from an offset on, with its escapes decoded. None if bytes outside of the body are
asked for. -/
def unescapeFrom? (body : Bytes) (i : Nat) : Option (Except BadEscape Bytes) :=
  match _ : body[i]? with
  | none => some (.ok [])
  | some b =>
    if b = 0x5C then
      match _ : (body.slice? i body.length).bind escapeAt? with
      | none => none
      | some (.error n) =>
        (body.slice? i (i + min n (body.length - i))).map fun bad => .error ⟨i, bad⟩
      | some (.ok (n, c)) => (unescapeFrom? body (i + n)).map (·.map (Utf8.encode c ++ ·))
    else (unescapeFrom? body (i + 1)).map (·.map (b :: ·))
termination_by body.length - i
decreasing_by
  · rename_i inside _ found
    obtain ⟨s, _, escape⟩ := Option.bind_eq_some_iff.1 found
    have := escapeAt?_pos escape
    have := (List.getElem?_eq_some_iff.1 inside).1
    omega
  · rename_i inside _
    have := (List.getElem?_eq_some_iff.1 inside).1
    omega

/-- The place of `n` bytes inside a literal, `off` bytes from its start. -/
def escapeSpan (lit : Span) (off n : Nat) : Span :=
  let start := lit.start + UInt32.ofNat off
  let stop := min (start + UInt32.ofNat n) lit.stop
  { start, stop, line := lit.line, column := lit.column - (lit.stop - stop), length := stop - start }

/-- The text between the quotes of a literal, escapes decoded. None if bytes outside of the literal are asked for. -/
def unescape? (raw : Bytes) (span : Span) : Option (Except Fault Bytes) :=
  if raw.length < 2 then some (.error (.internal span ("literal " ++ Text.quote raw ++ " has no quotes")))
  else do
    let body ← raw.slice? 1 (raw.length - 1)
    match ← unescapeFrom? body 0 with
    | .ok s => return .ok s
    | .error bad =>
      return .error (.user .invalidEscape (escapeSpan span (bad.offset + 1) bad.text.length)
        ("unknown escape sequence `" ++ bad.text ++ "`"))

/-! ## Literals -/

/-- The text that a literal stands for: between the quotes of a character or a string, else the literal itself. -/
def literalText? (kind : Tag LiteralKind) (raw : Bytes) (span : Span) : Option (Except Fault Bytes) :=
  if kind = .known .char ∨ kind = .known .string then unescape? raw span else some (.ok raw)

/-- The instruction that pushes a literal with the given text between its quotes. -/
def instrOf (kind : Tag LiteralKind) (raw : Bytes) (span : Span) (text : Except Fault Bytes) : Except Fault Instr :=
  match kind with
  | .known .int =>
    match Integer.readSigned (intDigits raw).1 (intDigits raw).2 with
    | .ok n => .ok { op := .pushInt, int := n }
    | .error .outOfRange =>
      .error (.user .literalOutOfRange span ("integer literal `" ++ raw ++ "` does not fit in 64 bits"))
    | .error .malformed =>
      .error (.user .malformedLiteral span ("malformed integer literal `" ++ raw ++ "`"))
  | .known .decimal | .known .exponent =>
    match Binary64.ofText raw with
    | .ok x => .ok { op := .pushDec, float := x }
    | .error .outOfRange =>
      .error (.user .literalOutOfRange span ("number `" ++ raw ++ "` is out of range"))
    | .error .malformed => .error (.user .malformedLiteral span ("malformed number `" ++ raw ++ "`"))
  | .known .bool => .ok { op := .pushBool, int := if raw = "true" then 1 else 0 }
  | .known .char =>
    match text with
    | .error f => .error f
    | .ok s =>
      match Utf8.pieces s with
      | [p] => .ok { op := .pushChar, int := Int64.ofInt p.shown.toNat }
      | _ =>
        .error (.user .malformedLiteral span
          ("char literal " ++ raw ++ " must contain exactly one character"))
  | .known .string => text.map fun s => { op := .pushStr, str := s }
  | .unknown _ => .error (.internal span ("unknown literal kind " ++ kind.literalName))

/-- The instruction of a literal, or what is wrong with it. -/
def Lowered.ofInstr (span : Span) : Except Fault Instr → Lowered
  | .ok i => .emit i span
  | .error f => .fault f

def lowerLiteral (kind : Tag LiteralKind) (raw : Bytes) (span : Span) : Lowered :=
  match literalText? kind raw span with
  | none => .broken .outOfRange
  | some text => .ofInstr span (instrOf kind raw span text)

end LetStack.Lower
