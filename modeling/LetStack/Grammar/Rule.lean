import LetStack.Grammar.Error

/-!
Rules and how they are put together. A rule reads a prefix of the tokens and yields a value and the
position behind it, or says why it fails. A failing rule consumes nothing: whoever calls it still
has the old position. Alternatives, repetition and options go on after a mismatch only; any other
failure passes through them unchanged.
-/

namespace LetStack.Grammar

def Rule (α : Type) := Input → Except Error (α × Input)

namespace Rule

/-- The code of a missing token: its own one for `;` and `)`. -/
def missingCode : Token.Kind → Code
  | .semicolon => .expectedSemicolon
  | .rParen => .unclosedParenthesis
  | _ => .unexpectedToken

def tag (kind : Token.Kind) : Rule Token := fun i =>
  match i.peek? with
  | some tok =>
    if tok.kind = kind then .ok (tok, i.advance)
    else .error (.mismatch i (missingCode kind) [kind.describe])
  | none => .error (.mismatch i (missingCode kind) [kind.describe])

def oneOf (kinds : List Token.Kind) : Rule Token := fun i =>
  match i.peek? with
  | some tok =>
    if tok.kind ∈ kinds then .ok (tok, i.advance)
    else .error (.mismatch i .unexpectedToken (kinds.map (·.describe)))
  | none => .error (.mismatch i .unexpectedToken (kinds.map (·.describe)))

def succeed {α : Type} (a : α) : Rule α := fun i => .ok (a, i)

def foreign {α : Type} (message : Bytes) : Rule α := fun i => .error (.here i .unknown (.foreign message none))

def map {α β : Type} (r : Rule α) (f : α → β) : Rule β := fun i =>
  match r i with
  | .ok (a, j) => .ok (f a, j)
  | .error e => .error e

/-- The first rule that matches. When all mismatch, the failure that got furthest, `best` being that
of the rules tried before. -/
def firstOf {α : Type} (best : Option Error) : List (Rule α) → Rule α
  | [] => fun i => .error (best.getD (.mismatch i .unexpectedToken []))
  | r :: rules => fun i =>
    match r i with
    | .ok v => .ok v
    | .error e =>
      if e.isMismatch then firstOf (some ((best.map (·.furthest e.unwrapped)).getD e.unwrapped)) rules i
      else .error e

/-- The first of the rules that matches. -/
def alt {α : Type} (rules : List (Rule α)) : Rule α := firstOf none rules

def seq {α : Type} : List (Rule α) → Rule (List α)
  | [] => fun i => .ok ([], i)
  | r :: rules => fun i =>
    match r i with
    | .error e => .error e
    | .ok (a, j) =>
      match seq rules j with
      | .error e => .error e
      | .ok (as, k) => .ok (a :: as, k)

def pair {α β : Type} (r : Rule α) (s : Rule β) : Rule (α × β) := fun i =>
  match r i with
  | .error e => .error e
  | .ok (a, j) =>
    match s j with
    | .error e => .error e
    | .ok (b, k) => .ok ((a, b), k)

/-- Both rules, with the value of the second. -/
def preceded {α β : Type} (first : Rule α) (r : Rule β) : Rule β := map (pair first r) Prod.snd

/-- Both rules, with the value of the first. -/
def terminated {α β : Type} (r : Rule α) (last : Rule β) : Rule α := map (pair r last) Prod.fst

/-- Three rules, with the value of the middle one. -/
def delimited {α β γ : Type} (opening : Rule α) (r : Rule β) (closing : Rule γ) : Rule β :=
  preceded opening (terminated r closing)

/-- The rule as often as it matches; a match that reads nothing ends the repetition. -/
def many {α : Type} (r : Rule α) (i : Input) : Except Error (List α × Input) :=
  if i.atEnd then .ok ([], i)
  else
    match r i with
    | .error e => if e.isMismatch then .ok ([], i) else .error e
    | .ok (a, j) =>
      if j.left < i.left then
        match many r j with
        | .error e => .error e
        | .ok (as, k) => .ok (a :: as, k)
      else .ok ([], i)
termination_by i.left

/-- The rule as often as it matches, also not at all. -/
def many0 {α : Type} (r : Rule α) : Rule (List α) := many r

/-- The rule, or nothing when it does not match. -/
def opt {α : Type} (r : Rule α) : Rule (Option α) := fun i =>
  match r i with
  | .ok (a, j) => .ok (some a, j)
  | .error e => if e.isMismatch then .ok (none, i) else .error e

/-- One or more elements with separators between them; a separator behind the last stays unread. -/
def separated {α β : Type} (sep : Rule α) (element : Rule β) : Rule (List β) :=
  map (pair element (many0 (preceded sep element))) fun (first, others) => first :: others

/-- The rule, and then the end of input. -/
def allConsuming {α : Type} (r : Rule α) : Rule α := fun i =>
  match r i with
  | .error e => .error e
  | .ok (a, j) => if j.atEnd then .ok (a, j) else .error (.here j .trailingInput .trailing)

/-- The rule with one description in place of what it expects at its first token. -/
def label {α : Type} (r : Rule α) (what : Bytes) (code : Code) : Rule α := fun i =>
  match r i with
  | .ok v => .ok v
  | .error e => if e.isMismatch ∧ e.pos = i.pos then .error (.mismatch i code [what]) else .error e

/-- Where the trigger matches, the failure that the feature is not supported. -/
def unimplemented {α β : Type} (trigger : Rule α) (feature : Bytes) : Rule β := fun i =>
  match trigger i with
  | .error e => .error e
  | .ok _ => .error (.here i .unsupportedSyntax (.unimplemented feature))

end Rule

end LetStack.Grammar
