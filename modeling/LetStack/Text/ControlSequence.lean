import LetStack.Text.Bytes

/-!
Control sequences, which a terminal obeys instead of showing them: they start with the escape character
or with a control byte of the upper half, and end as their kind prescribes. Reading goes byte by byte
from one state to the next.
-/

namespace LetStack.Text

/-- Where in a control sequence the reader stands. -/
inductive ControlState where
  /-- In none. -/
  | text
  /-- Behind the escape character, and behind further bytes of a short sequence. -/
  | escape
  | escapeMore
  /-- In a sequence with parameters: in front of them, among them, and behind them. -/
  | command
  | commandParams
  | commandMore
  /-- In the head of a device string, likewise, and in its body. -/
  | device
  | deviceParams
  | deviceMore
  | deviceBody
  /-- In a string for the system. -/
  | system
  /-- In a string of any other kind. -/
  | message
  deriving DecidableEq, Repr

namespace ControlState

/-- The parts that the lower half of the bytes has in sequences. -/
inductive ByteClass where
  | control
  | intermediate
  | parameter
  | final
  deriving DecidableEq, Repr

def ByteClass.of (b : UInt8) : ByteClass :=
  if b < 0x20 ∨ b = 0x7F then control
  else if b < 0x30 then intermediate
  else if b < 0x40 then parameter
  else final

/-- The state behind a byte that ends or starts a sequence wherever it stands; none if a character of
several bytes starts with it. -/
def afterUpper (b : UInt8) : Option ControlState :=
  if b = 0x90 then some device
  else if b = 0x9B then some command
  else if b = 0x9D then some system
  else if b = 0x98 ∨ b = 0x9E ∨ b = 0x9F then some message
  else if 0xC2 ≤ b ∧ b ≤ 0xF4 then none
  else some text

/-- The state behind the byte that follows the escape character. -/
def afterEscape (b : UInt8) : ControlState :=
  if b = 0x50 then device
  else if b = 0x58 ∨ b = 0x5E ∨ b = 0x5F then message
  else if b = 0x5B then command
  else if b = 0x5D then system
  else
    match ByteClass.of b with
    | .control => escape
    | .intermediate => escapeMore
    | _ => text

/-- The state behind one more byte; none if a character of several bytes starts with it. Such characters
are part of the strings for systems and devices, and end all other sequences. -/
def step (s : ControlState) (b : UInt8) : Option ControlState :=
  if s = system then some (if b = 0x1B then escape else if b ∈ [0x07, 0x18, 0x1A, 0x9C] then text else system)
  else if s = deviceBody then some (if b = 0x1B then escape else if b ∈ [0x18, 0x1A, 0x9C] then text else deviceBody)
  else if 0x80 ≤ b then afterUpper b
  else if b = 0x18 ∨ b = 0x1A then some text
  else if b = 0x1B then some (if s = device then deviceBody else escape)
  else
    match s, ByteClass.of b with
    | text, _ => some text
    | escape, _ => some (afterEscape b)
    | escapeMore, .control | escapeMore, .intermediate => some escapeMore
    | escapeMore, _ => some text
    | command, .control => some command
    | command, .parameter | commandParams, .control | commandParams, .parameter => some commandParams
    | command, .intermediate | commandParams, .intermediate => some commandMore
    | commandMore, .control | commandMore, .intermediate => some commandMore
    | command, .final | commandParams, .final | commandMore, _ => some text
    | device, .control => some (if 0x08 ≤ b ∧ b ≤ 0x0D then deviceBody else device)
    | device, .parameter | deviceParams, .control | deviceParams, .parameter => some deviceParams
    | device, .intermediate | deviceParams, .intermediate => some deviceMore
    | deviceMore, .control | deviceMore, .intermediate => some deviceMore
    | device, .final | deviceParams, .final | deviceMore, _ => some deviceBody
    | message, _ => some message
    | system, _ => some system
    | deviceBody, _ => some deviceBody

/-- Whether a byte shows a character of its own. -/
def shows (s : ControlState) (b : UInt8) : Bool := s = text && 0x20 ≤ b && b ≤ 0x7F

end ControlState

end LetStack.Text
