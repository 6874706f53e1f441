import LetStack.Token.Basic
import LetStack.Token.Longest

/-!
The scanner turns a source into tokens. It keeps the unread bytes, counts the line breaks between
tokens, and skips line breaks and blanks; what no token class matches becomes a token of kind
`invalid`. Every token consumes at least one byte, so scanning ends.
-/

namespace LetStack

structure Scanner where
  rest : Bytes
  offset : Nat := 0
  /-- Line breaks skipped so far. -/
  line : Nat := 0
  /-- The offset behind the last line break. -/
  lineStart : Nat := 0
  deriving DecidableEq, Repr, Inhabited

namespace Scanner
open Token

def ofSource (src : Bytes) : Scanner := { rest := src }

/-- The scanner `n` bytes further, clamped at the end. -/
def advance (s : Scanner) (n : Nat) : Scanner :=
  { s with rest := s.rest.drop n, offset := s.offset + (s.rest.take n).length }

/-- The scanner behind a line break of `n` bytes. -/
def breakLine (s : Scanner) (n : Nat) : Scanner :=
  let t := s.advance n
  { t with line := t.line + 1, lineStart := t.offset }

theorem advance_rest_length_lt {s : Scanner} {n : Nat} (hn : 0 < n) (hs : s.rest ≠ []) :
    (s.advance n).rest.length < s.rest.length := by
  have := List.length_pos_iff.2 hs
  simp only [advance, List.length_drop]; omega

/-- The scanner in front of the next token. -/
def skipTrivia (s : Scanner) : Scanner :=
  if _ : s.rest = [] then s
  else if _ : 0 < lineBreakLength s.rest then skipTrivia (s.breakLine (lineBreakLength s.rest))
  else if _ : 0 < blankLength s.rest then skipTrivia (s.advance (blankLength s.rest))
  else s
termination_by s.rest.length
decreasing_by
  · rename_i h hb; exact advance_rest_length_lt hb h
  · rename_i h _ hs; exact advance_rest_length_lt hs h

/-- The kind and length of the token in front of the scanner: the longest match, or the bytes up to
the next character. -/
def measure (x : Bytes) : Kind × Nat :=
  let (kind, n) := longestMatch x
  if n = 0 then (.invalid, max 1 (strayLength x)) else (kind, n)

theorem measure_pos (x : Bytes) : 0 < (measure x).2 := by
  simp only [measure]; split <;> simp only <;> omega

/-- The token of `n` bytes in front of the scanner. Its column counts from the last line break to
the end of the token. -/
def tokenOf (s : Scanner) (kind : Kind) (n : Nat) : Token :=
  let start := UInt32.ofNat s.offset
  let stop := UInt32.ofNat (s.advance n).offset
  { kind
    text := s.rest.take n
    span := { start, stop, line := UInt32.ofNat s.line
              column := stop - UInt32.ofNat s.lineStart, length := stop - start } }

/-- The next token and the scanner behind it, or none at the end of the source. -/
def next? (s : Scanner) : Option (Token × Scanner) :=
  let t := s.skipTrivia
  if t.rest = [] then none
  else
    let (kind, n) := measure t.rest
    some (t.tokenOf kind n, t.advance n)

theorem skipTrivia_rest_length_le (s : Scanner) : s.skipTrivia.rest.length ≤ s.rest.length := by
  fun_induction skipTrivia s with
  | case1 => exact Nat.le_refl _
  | case2 s h hb ih => exact Nat.le_trans ih (Nat.le_of_lt (advance_rest_length_lt hb h))
  | case3 s h hb hs ih => exact Nat.le_trans ih (Nat.le_of_lt (advance_rest_length_lt hs h))
  | case4 => exact Nat.le_refl _

theorem next?_rest_length_lt {s t : Scanner} {tok : Token} (h : s.next? = some (tok, t)) :
    t.rest.length < s.rest.length := by
  simp only [next?] at h
  split at h
  · simp at h
  · rename_i hne
    simp only [Option.some.injEq, Prod.mk.injEq] at h
    rw [← h.2]
    exact Nat.lt_of_lt_of_le (advance_rest_length_lt (measure_pos _) hne)
      (skipTrivia_rest_length_le s)

/-- The remaining tokens and the scanner at the end of the source. -/
def run (s : Scanner) : List Token × Scanner :=
  match _ : s.next? with
  | none => ([], s.skipTrivia)
  | some (tok, t) =>
    let (toks, last) := run t
    (tok :: toks, last)
termination_by s.rest.length
decreasing_by rename_i h; exact next?_rest_length_lt h

/-- At most `n` of the remaining tokens, and the scanner behind them. -/
def take : Nat → Scanner → List Token × Scanner
  | 0, s => ([], s)
  | n + 1, s =>
    match s.next? with
    | none => ([], s.skipTrivia)
    | some (tok, t) =>
      let (toks, last) := take n t
      (tok :: toks, last)

end Scanner

def tokenize (src : Bytes) : List Token := (Scanner.ofSource src).run.1

end LetStack
