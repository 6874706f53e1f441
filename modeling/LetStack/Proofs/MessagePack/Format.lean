import LetStack.Proofs.MessagePack.RoundTrip

/-!
The length of a text, a list or a record is a part of the first byte or a numeral behind a code. `Written item x` says
that the bytes `x` are an item with every length in its shortest form and the fields of records in order.
-/

namespace LetStack.MessagePack

/-! ## Lengths -/

/-- The bytes are the number in a fixed width, the most significant byte first. -/
structure Numeral (width n : Nat) (x : Bytes) : Prop where
  length : x.length = width
  value : ofBigEndian x = n

/-- In what forms a length may be given. -/
structure LengthForms where
  /-- The first byte when the length 0 is a part of it. -/
  base : Nat
  /-- The lengths below this one can be a part of the first byte. -/
  inlined : Nat
  /-- The codes in front of a numeral, each with the width of the numeral. -/
  coded : List (UInt8 × Nat)

def textForms : LengthForms := { base := 0xA0, inlined := 32, coded := [(0xD9, 1), (0xDA, 2), (0xDB, 4)] }
def listForms : LengthForms := { base := 0x90, inlined := 16, coded := [(0xDC, 2), (0xDD, 4)] }
def recordForms : LengthForms := { base := 0x80, inlined := 16, coded := [(0xDE, 2), (0xDF, 4)] }

namespace LengthForms

/-- The bytes give the length in one of the forms. -/
inductive Gives (f : LengthForms) (n : Nat) : Bytes → Prop
  | inlined {code : UInt8} : n < f.inlined → code.toNat = f.base + n → Gives f n [code]
  | coded {code : UInt8} {width : Nat} {x : Bytes} : (code, width) ∈ f.coded → Numeral width n x →
      Gives f n (code :: x)

/-- No form gives the length in fewer bytes. -/
structure Shortest (f : LengthForms) (n : Nat) (x : Bytes) : Prop where
  gives : f.Gives n x
  least : ∀ y, f.Gives n y → x.length ≤ y.length

end LengthForms

theorem ofBigEndian_lt (x : Bytes) : ofBigEndian x < Nat.pow 256 x.length := by
  suffices ∀ m, x.foldl (fun n b => n * 256 + b.toNat) m < (m + 1) * Nat.pow 256 x.length by
    have whole := this 0
    rwa [Nat.zero_add, Nat.one_mul] at whole
  induction x with
  | nil => intro m; simp
  | cons b x ih =>
    intro m
    have byte : b.toNat < 256 := b.toNat_lt
    calc x.foldl (fun n b => n * 256 + b.toNat) (m * 256 + b.toNat)
      _ < (m * 256 + b.toNat + 1) * Nat.pow 256 x.length := ih _
      _ ≤ ((m + 1) * 256) * Nat.pow 256 x.length := Nat.mul_le_mul_right _ (by omega)
      _ = (m + 1) * Nat.pow 256 (x.length + 1) := by
        rw [Nat.pow_eq, Nat.pow_eq, Nat.pow_succ, Nat.mul_assoc, Nat.mul_comm 256]

theorem Numeral.lt {width n : Nat} {x : Bytes} (h : Numeral width n x) : n < Nat.pow 256 width := by
  rw [← h.value, ← h.length]
  exact ofBigEndian_lt x

theorem numeral_bigEndian {width n : Nat} (fits : n < Nat.pow 256 width) : Numeral width n (bigEndian width n) where
  length := length_bigEndian width n
  value := by rw [ofBigEndian_bigEndian, Nat.mod_eq_of_lt fits]

namespace LengthForms

variable {f : LengthForms} {n : Nat}

theorem shortest_inlined (short : n < f.inlined) (room : f.base + f.inlined ≤ 256) :
    f.Shortest n [UInt8.ofNat (f.base + n)] where
  gives := .inlined short (toNat_code (Nat.lt_of_lt_of_le (Nat.add_lt_add_left short f.base) room))
  least := by
    rintro y (_ | _)
    · exact Nat.le_refl 1
    · exact Nat.succ_le_succ (Nat.zero_le _)

theorem shortest_coded {code : UInt8} {width : Nat} (known : (code, width) ∈ f.coded)
    (fits : n < Nat.pow 256 width) (long : f.inlined ≤ n)
    (narrower : ∀ c ∈ f.coded, c.2 < width → Nat.pow 256 c.2 ≤ n) : f.Shortest n (code :: bigEndian width n) where
  gives := .coded known (numeral_bigEndian fits)
  least := by
    rintro y (⟨short, _⟩ | ⟨other, numeral⟩)
    · exact absurd short (Nat.not_lt.2 long)
    · rw [List.length_cons, List.length_cons, length_bigEndian, numeral.length]
      refine Nat.succ_le_succ (Nat.le_of_not_lt fun less => ?_)
      exact Nat.not_lt.2 (narrower _ other less) numeral.lt

end LengthForms

theorem textHeader_shortest {n : Nat} (fits : n < 0x100000000) : textForms.Shortest n (textHeader n) := by
  unfold textHeader
  split
  case isTrue short => exact LengthForms.shortest_inlined short (by decide)
  case isFalse long =>
    have long : 32 ≤ n := Nat.le_of_not_lt long
    split
    case isTrue short => exact LengthForms.shortest_coded (by decide) short long (by simp [textForms])
    split
    case isTrue short => exact LengthForms.shortest_coded (by decide) short long (by simp [textForms]; omega)
    exact LengthForms.shortest_coded (by decide) fits long (by simp [textForms]; omega)

theorem listHeader_shortest {n : Nat} (fits : n < 0x100000000) : listForms.Shortest n (listHeader n) := by
  unfold listHeader
  split
  case isTrue short => exact LengthForms.shortest_inlined short (by decide)
  case isFalse long =>
    have long : 16 ≤ n := Nat.le_of_not_lt long
    split
    case isTrue short => exact LengthForms.shortest_coded (by decide) short long (by simp [listForms])
    exact LengthForms.shortest_coded (by decide) fits long (by simp [listForms]; omega)

theorem recordHeader_shortest {n : Nat} (fits : n < 0x100000000) : recordForms.Shortest n (recordHeader n) := by
  unfold recordHeader
  split
  case isTrue short => exact LengthForms.shortest_inlined short (by decide)
  case isFalse long =>
    have long : 16 ≤ n := Nat.le_of_not_lt long
    split
    case isTrue short => exact LengthForms.shortest_coded (by decide) short long (by simp [recordForms])
    exact LengthForms.shortest_coded (by decide) fits long (by simp [recordForms]; omega)

/-! ## Items -/

/-- What is written: values of the machine's own types, lists of items, and records of named items. -/
inductive Item where
  | nil
  | byte (n : UInt8)
  | word (n : UInt32)
  | int (n : Int64)
  | float (x : Binary64)
  | text (s : Bytes)
  | list (items : List Item)
  | record (fields : List (Bytes × Item))

/-- Whether the item is the zero of its type. -/
def Item.isZero : Item → Bool
  | nil => true
  | byte n => n = 0
  | word n => n = 0
  | int n => n = 0
  | float x => x.isZero
  | text s => s = []
  | list items => items.isEmpty
  | record _ => false

mutual

/-- The bytes of an item. Numbers keep the width of their type, and every length has its shortest form. -/
inductive Written : Item → Bytes → Prop
  | nil : Written .nil [0xC0]
  | byte {n : UInt8} {x : Bytes} : Numeral 1 n.toNat x → Written (.byte n) (0xCC :: x)
  | word {n : UInt32} {x : Bytes} : Numeral 4 n.toNat x → Written (.word n) (0xCE :: x)
  | int {n : Int64} {x : Bytes} : Numeral 8 n.toUInt64.toNat x → Written (.int n) (0xD3 :: x)
  | float {v : Binary64} {x : Bytes} : Numeral 8 v.bits.toNat x → Written (.float v) (0xCB :: x)
  | text {s header : Bytes} : textForms.Shortest s.length header → Written (.text s) (header ++ s)
  | list {items : List Item} {header x : Bytes} : listForms.Shortest items.length header → WrittenAll items x →
      Written (.list items) (header ++ x)
  | record {fields : List (Bytes × Item)} {header x : Bytes} : recordForms.Shortest fields.length header →
      WrittenFields fields x → Written (.record fields) (header ++ x)

inductive WrittenAll : List Item → Bytes → Prop
  | nil : WrittenAll [] []
  | cons {item : Item} {items : List Item} {x y : Bytes} : Written item x → WrittenAll items y →
      WrittenAll (item :: items) (x ++ y)

/-- The bytes of fields, each its name and then its item. -/
inductive WrittenFields : List (Bytes × Item) → Bytes → Prop
  | nil : WrittenFields [] []
  | cons {key : Bytes} {item : Item} {fields : List (Bytes × Item)} {x y z : Bytes} : Written (.text key) x →
      Written item y → WrittenFields fields z → WrittenFields ((key, item) :: fields) (x ++ y ++ z)

end

/-! ## Writers -/

theorem writeText_written {s : Bytes} (fits : s.length < 0x100000000) : Written (.text s) (writeText s) :=
  .text (textHeader_shortest fits)

theorem writeByte_written (n : Nat) : Written (.byte (UInt8.ofNat n)) (writeByte n) := by
  refine .byte ⟨length_bigEndian 1 n, ?_⟩
  rw [ofBigEndian_bigEndian, UInt8.toNat_ofNat']

theorem writeWord32_written (n : UInt32) : Written (.word n) (writeWord32 n.toNat) :=
  .word (numeral_bigEndian n.toNat_lt)

theorem writeInt64_written (n : Int64) : Written (.int n) (writeInt64 n) :=
  .int (numeral_bigEndian n.toUInt64.toNat_lt)

theorem writeFloat_written (x : Binary64) : Written (.float x) (writeFloat x) :=
  .float (numeral_bigEndian x.bits.toNat_lt)

theorem writeList_written {β : Type} {write : β → Bytes} {item : β → Item} {xs : List β}
    (fits : xs.length < 0x100000000) (each : ∀ x ∈ xs, Written (item x) (write x)) :
    Written (.list (xs.map item)) (writeList write xs) := by
  have items : WrittenAll (xs.map item) (xs.flatMap write) := by
    clear fits
    induction xs with
    | nil => exact .nil
    | cons x xs ih =>
      exact .cons (each x (.head _)) (ih fun y member => each y (.tail _ member))
  refine .list ?_ items
  rw [List.length_map]
  exact listHeader_shortest fits

/-- Fields that were written each on its own, with the items that they are. -/
inductive FieldsWritten : List (Bytes × Item) → List (Bytes × Bytes) → Prop
  | nil : FieldsWritten [] []
  | cons {key value : Bytes} {item : Item} {fields : List (Bytes × Item)} {xs : List (Bytes × Bytes)} :
      key.length < 0x100000000 → Written item value → FieldsWritten fields xs →
      FieldsWritten ((key, item) :: fields) ((key, value) :: xs)

theorem FieldsWritten.unless (key : Bytes) {value : Bytes} {item : Item} {fields : List (Bytes × Item)}
    {xs : List (Bytes × Bytes)} (short : key.length < 0x100000000) (first : Written item value)
    (others : FieldsWritten (fields.filter fun field => !field.2.isZero) xs) :
    FieldsWritten (((key, item) :: fields).filter fun field => !field.2.isZero)
      (fieldUnless item.isZero key value ++ xs) := by
  rw [List.filter_cons]
  cases item.isZero with
  | true => exact others
  | false => exact .cons short first others

theorem writeRecord_written {fields : List (Bytes × Item)} {xs : List (Bytes × Bytes)} (h : FieldsWritten fields xs)
    (fits : xs.length < 0x100000000) : Written (.record fields) (writeRecord xs) := by
  have parts : fields.length = xs.length ∧
      WrittenFields fields (xs.flatMap fun field => writeText field.1 ++ field.2) := by
    clear fits
    induction h with
    | nil => exact ⟨rfl, .nil⟩
    | cons short first _ ih => exact ⟨congrArg (· + 1) ih.1, .cons (writeText_written short) first ih.2⟩
  refine .record ?_ parts.2
  rw [parts.1]
  exact recordHeader_shortest fits

end LetStack.MessagePack
