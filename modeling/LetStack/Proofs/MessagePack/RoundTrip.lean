import LetStack.MessagePack.Reader
import LetStack.MessagePack.Writer

/-!
`Reads r x a` says that the reader `r` takes exactly the bytes `x` and yields `a`, with a law for each writer:
numbers, texts, lists and records. Records are read field by field, and a field that was left out keeps its value
(`ReadsFields`).
-/

namespace LetStack.MessagePack

variable {α β : Type}

/-- The reader takes the bytes and nothing behind them, and yields the value. -/
def Reads (r : Reader α) (x : Bytes) (a : α) : Prop := ∀ rest, r.run (x ++ rest) = some (a, rest)

theorem reads_pure (a : α) : Reads (pure a : Reader α) [] a := fun _ => rfl

variable {x s : Bytes} {a : α} {n : Nat} {xs : List β}

theorem Reads.bind {r : Reader α} {f : α → Reader β} {y : Bytes} {b : β} (first : Reads r x a)
    (second : Reads (f a) y b) : Reads (r >>= f) (x ++ y) b := by
  intro rest
  rw [List.append_assoc, StateT.run_bind, first]
  exact second rest

theorem Reads.map {r : Reader α} {x : Bytes} {a : α} (h : Reads r x a) (f : α → β) :
    Reads (do return f (← r)) x (f a) := by
  have mapped : Reads (r >>= fun v => pure (f v)) (x ++ []) (f a) := h.bind (reads_pure (f a))
  rwa [List.append_nil] at mapped

/-! ## Numbers -/

theorem readByte_reads (b : UInt8) : Reads readByte [b] b := fun _ => rfl

theorem readBytes_reads (x : Bytes) : Reads (readBytes x.length) x x := by
  intro rest
  show (if x.length ≤ (x ++ rest).length then _ else _) = _
  rw [if_pos (by simp), List.take_left, List.drop_left]

theorem length_bigEndian (width n : Nat) : (bigEndian width n).length = width := by
  induction width with
  | zero => rfl
  | succ width ih => rw [bigEndian, List.length_cons, ih]

theorem ofBigEndian_bigEndian (width n : Nat) : ofBigEndian (bigEndian width n) = n % Nat.pow 256 width := by
  suffices ∀ m, (bigEndian width n).foldl (fun n b => n * 256 + b.toNat) m = m * Nat.pow 256 width + n % Nat.pow 256 width by
    rw [ofBigEndian, this 0, Nat.zero_mul, Nat.zero_add]
  induction width with
  | zero => intro m; simp [bigEndian, Nat.mod_one]
  | succ width ih =>
    intro m
    rw [bigEndian, List.foldl_cons, ih, UInt8.toNat_ofNat']
    simp only [Nat.pow_eq]
    rw [Nat.mod_pow_succ (b := 256), Nat.pow_succ]
    grind

theorem readUnsigned_reads (width n : Nat) :
    Reads (readUnsigned width) (bigEndian width n) (n % Nat.pow 256 width) := by
  have bytes := readBytes_reads (bigEndian width n)
  rw [length_bigEndian] at bytes
  have number := bytes.map ofBigEndian
  rwa [ofBigEndian_bigEndian] at number

/-- An item is read as its first byte says. -/
theorem Reads.coded {f : UInt8 → Reader α} {code : UInt8} (h : Reads (f code) x a) :
    Reads (do f (← readByte)) (code :: x) a :=
  (readByte_reads code).bind h

theorem Reads.readNat {width : Nat} (h : Reads readInteger x (n % Nat.pow 256 width : Nat)) :
    Reads (readNat width) x (n % Nat.pow 256 width) := by
  have cut := h.map fun m => (m % Nat.pow 256 width).toNat
  rw [Nat.pow_eq, ← Int.natCast_emod, Int.toNat_natCast, Nat.mod_mod] at cut
  exact cut

theorem readNat_byte (n : Nat) : Reads (readNat 1) (writeByte n) (n % Nat.pow 256 1) :=
  .readNat (.coded ((readUnsigned_reads 1 n).map Nat.cast))

theorem readNat_word16 (n : Nat) : Reads (readNat 2) (writeWord16 n) (n % Nat.pow 256 2) :=
  .readNat (.coded ((readUnsigned_reads 2 n).map Nat.cast))

theorem readNat_word32 (n : Nat) : Reads (readNat 4) (writeWord32 n) (n % Nat.pow 256 4) :=
  .readNat (.coded ((readUnsigned_reads 4 n).map Nat.cast))

theorem readWord_reads (n : UInt32) (f : UInt32 → α) :
    Reads (do return f (UInt32.ofNat (← readNat 4))) (writeWord32 n.toNat) (f n) := by
  have word := (readNat_word32 n.toNat).map fun m => f (UInt32.ofNat m)
  rwa [Nat.mod_eq_of_lt n.toNat_lt, UInt32.ofNat_toNat] at word

theorem readInt64_reads (n : Int64) : Reads readInt64 (writeInt64 n) n := by
  have signed := (readUnsigned_reads 8 n.toUInt64.toNat).map fun m =>
    if 2 * m < Nat.pow 256 8 then (m : Int) else (m : Int) - Nat.pow 256 8
  rw [Nat.mod_eq_of_lt n.toUInt64.toNat_lt] at signed
  have integer : Reads readInteger (writeInt64 n) n.toInt := .coded signed
  have back := integer.map Int64.ofInt
  rwa [Int64.ofInt_toInt] at back

theorem readFloat_reads (x : Binary64) : Reads readFloat (writeFloat x) x := by
  have bits := (readUnsigned_reads 8 x.bits.toNat).map fun m => Binary64.mk (UInt64.ofNat m)
  rw [Nat.mod_eq_of_lt x.bits.toNat_lt, UInt64.ofNat_toNat] at bits
  exact (readByte_reads 0xCB).bind bits

theorem readBool_reads (b : Bool) : Reads readBool (writeBool b) b := by
  cases b <;> exact fun _ => rfl

/-! ## Texts, lists and records -/

theorem toNat_code {base : Nat} (fits : base + n < 256) : (UInt8.ofNat (base + n)).toNat = base + n :=
  UInt8.toNat_ofNat_of_lt' fits

theorem length_reads {width : Nat} (fits : n < Nat.pow 256 width) :
    Reads (do return some (← readUnsigned width)) (bigEndian width n) (some n) := by
  have length := (readUnsigned_reads width n).map some
  rwa [Nat.mod_eq_of_lt fits] at length

theorem short_length_reads {f : UInt8 → Reader (Option Nat)} {base : Nat} (fits : base + n < 256)
    (h : f (UInt8.ofNat (base + n)) = pure (some ((UInt8.ofNat (base + n)).toNat - base))) :
    Reads (f (UInt8.ofNat (base + n))) [] (some n) := by
  rw [h, toNat_code fits, Nat.add_sub_cancel_left]
  exact reads_pure _

theorem textHeader_reads (fits : n < 0x100000000) :
    ∃ code x, textHeader n = code :: x ∧ Reads (textLength code) x (some n) := by
  rw [textHeader]
  split
  case isTrue short =>
    refine ⟨_, _, rfl, short_length_reads (by omega) (if_pos ?_)⟩
    rw [UInt8.le_iff_toNat_le, UInt8.lt_iff_toNat_lt, toNat_code (by omega)]
    exact ⟨Nat.le_add_right _ _, Nat.add_lt_add_left short 0xA0⟩
  split
  case isTrue short => exact ⟨_, _, rfl, length_reads short⟩
  split
  case isTrue short => exact ⟨_, _, rfl, length_reads short⟩
  exact ⟨_, _, rfl, length_reads fits⟩

theorem listHeader_reads (fits : n < 0x100000000) :
    ∃ code x, listHeader n = code :: x ∧ Reads (listLength code) x (some n) := by
  rw [listHeader]
  split
  case isTrue short =>
    refine ⟨_, _, rfl, short_length_reads (by omega) (if_pos ?_)⟩
    rw [UInt8.le_iff_toNat_le, UInt8.lt_iff_toNat_lt, toNat_code (by omega)]
    exact ⟨Nat.le_add_right _ _, Nat.add_lt_add_left short 0x90⟩
  split
  case isTrue short => exact ⟨_, _, rfl, length_reads short⟩
  exact ⟨_, _, rfl, length_reads fits⟩

theorem recordHeader_reads (fits : n < 0x100000000) :
    ∃ code x, recordHeader n = code :: x ∧ Reads (mapLength code) x (some n) := by
  rw [recordHeader]
  split
  case isTrue short =>
    refine ⟨_, _, rfl, short_length_reads (by omega) (if_pos ?_)⟩
    rw [UInt8.le_iff_toNat_le, UInt8.lt_iff_toNat_lt, toNat_code (by omega)]
    exact ⟨Nat.le_add_right _ _, Nat.add_lt_add_left short 0x80⟩
  split
  case isTrue short => exact ⟨_, _, rfl, length_reads short⟩
  exact ⟨_, _, rfl, length_reads fits⟩

theorem readText_reads (fits : s.length < 0x100000000) : Reads readText (writeText s) s := by
  obtain ⟨code, x, header, length⟩ := textHeader_reads fits
  rw [writeText, header]
  exact .coded (length.bind (readBytes_reads s))

theorem writeBinary_eq (fits : s.length < 0x100000000) :
    ∃ code x, writeBinary s = code :: (x ++ s) ∧ Reads (textLength code) x (some s.length) := by
  rw [writeBinary]
  split
  case isTrue short => exact ⟨_, _, rfl, length_reads short⟩
  split
  case isTrue short => exact ⟨_, _, rfl, length_reads short⟩
  exact ⟨_, _, rfl, length_reads fits⟩

theorem readText_binary (fits : s.length < 0x100000000) : Reads readText (writeBinary s) s := by
  obtain ⟨code, x, header, length⟩ := writeBinary_eq fits
  rw [header]
  exact .coded (length.bind (readBytes_reads s))

theorem readItems_reads {zero : α} {read : α → Reader α} {write : β → Bytes} {g : β → α}
    (h : ∀ x ∈ xs, Reads (read zero) (write x) (g x)) :
    Reads (readItems zero read xs.length []) (xs.flatMap write) (xs.map g) := by
  induction xs with
  | nil => exact reads_pure []
  | cons x xs ih =>
    have rest := (ih fun y mem => h y (.tail _ mem)).map (g x :: ·)
    exact (h x (.head _)).bind rest

theorem readSlots_reads {zero : α} {read : α → Reader α} {write : β → Bytes} {g : β → α}
    (fits : xs.length < 0x100000000) (h : ∀ x ∈ xs, Reads (read zero) (write x) (g x)) :
    Reads (readSlots zero read {}) (writeList write xs) { items := xs.map g, present := true } := by
  obtain ⟨code, x, header, length⟩ := listHeader_reads fits
  have items := (readItems_reads h).map fun items =>
    ({ items, behind := ([] : List α).drop xs.length, present := true } : Slots α)
  have slots : Reads (readSlots zero read {}) (code :: (x ++ xs.flatMap write)) _ := .coded (length.bind items)
  rw [List.drop_nil] at slots
  rwa [writeList, header]

theorem readSlots_nil (zero : α) (read : α → Reader α) (old : Slots α) :
    Reads (readSlots zero read old) writeNil {} :=
  fun _ => rfl

/-- Fields that take a value to another one. -/
inductive ReadsFields (fields : Fields α) : List (Bytes × Bytes) → α → α → Prop
  | nil (a : α) : ReadsFields fields [] a a
  | cons {key value : Bytes} {rest : List (Bytes × Bytes)} {read : α → Reader α} {a b c : α}
      (known : fields.lookup key = some read) (short : key.length < 0x100000000) (first : Reads (read a) value b)
      (others : ReadsFields fields rest b c) : ReadsFields fields ((key, value) :: rest) a c

theorem ReadsFields.append {fields : Fields α} {x y : List (Bytes × Bytes)} {b c : α}
    (first : ReadsFields fields x a b) (second : ReadsFields fields y b c) : ReadsFields fields (x ++ y) a c := by
  induction first with
  | nil => exact second
  | cons known short first _ ih => exact .cons known short first (ih second)

/-- A field that is left out keeps the value that it has, so that must be the one left out. -/
theorem ReadsFields.unless {fields : Fields α} {isZero : Bool} {key value : Bytes} {read : α → Reader α} {b zero : β}
    (set : β → α) (known : fields.lookup key = some read) (short : key.length < 0x100000000) (left : isZero → b = zero)
    (first : Reads (read (set zero)) value (set b)) :
    ReadsFields fields (fieldUnless isZero key value) (set zero) (set b) := by
  cases isZero with
  | true => rw [left rfl]; exact .nil _
  | false => exact .cons known short first (.nil _)

theorem length_fieldUnless (isZero : Bool) (key value : Bytes) : (fieldUnless isZero key value).length ≤ 1 := by
  cases isZero
  · exact Nat.le_refl 1
  · exact Nat.zero_le 1

theorem readNamed_reads {fields : Fields α} {x : List (Bytes × Bytes)} {b : α} (h : ReadsFields fields x a b) :
    Reads (readNamed fields x.length a) (x.flatMap fun (key, value) => writeText key ++ value) b := by
  induction h with
  | nil a => exact reads_pure a
  | @cons key value rest read a b c known short first _ ih =>
    rw [List.flatMap_cons, List.append_assoc]
    refine (readText_reads short).bind ?_
    rw [known]
    exact first.bind ih

theorem readRecord_reads {zero : α} {fields : Fields α} {x : List (Bytes × Bytes)} {b : α}
    (h : ReadsFields fields x a b) (fits : x.length < 0x100000000) :
    Reads (readRecord zero fields a) (writeRecord x) b := by
  obtain ⟨code, y, header, length⟩ := recordHeader_reads fits
  intro rest
  rw [writeRecord, header, List.cons_append, List.cons_append, List.append_assoc, readRecord, StateT.run_bind,
    show readByte.run (code :: _) = some (code, _) from rfl]
  simp only [Option.bind_eq_bind, Option.bind_some, StateT.run_bind, StateT.run_get, Option.pure_def]
  rw [length]
  exact readNamed_reads h rest

/-! ## Lengths -/

theorem length_le_writeText (s : Bytes) : s.length ≤ (writeText s).length := by
  rw [writeText, List.length_append]
  exact Nat.le_add_left _ _

theorem length_le_writeBinary (s : Bytes) : s.length ≤ (writeBinary s).length := by
  rw [writeBinary, List.length_append]
  exact Nat.le_add_left _ _

theorem length_le_flatMap (write : β → Bytes) {x : β} (h : x ∈ xs) : (write x).length ≤ (xs.flatMap write).length := by
  obtain ⟨before, behind, rfl⟩ := List.append_of_mem h
  rw [List.flatMap_append, List.flatMap_cons, List.length_append, List.length_append]
  omega

theorem length_le_writeRecord {fields : List (Bytes × Bytes)} {key value : Bytes} (h : (key, value) ∈ fields) :
    value.length ≤ (writeRecord fields).length := by
  have field := length_le_flatMap (fun (key, value) => writeText key ++ value) h
  rw [List.length_append] at field
  rw [writeRecord, List.length_append]
  exact Nat.le_trans (Nat.le_trans (Nat.le_add_left _ _) field) (Nat.le_add_left _ _)

theorem writeRecord_pos (fields : List (Bytes × Bytes)) : 0 < (writeRecord fields).length := by
  have header : 0 < (recordHeader fields.length).length := by
    unfold recordHeader
    split
    · exact Nat.zero_lt_one
    split <;> exact Nat.succ_pos _
  rw [writeRecord, List.length_append]
  omega

theorem length_le_writeList {write : β → Bytes} {x : β} (h : x ∈ xs) :
    (write x).length ≤ (writeList write xs).length := by
  rw [writeList, List.length_append]
  exact Nat.le_trans (length_le_flatMap write h) (Nat.le_add_left _ _)

theorem count_le_writeList (write : β → Bytes) (some : ∀ x, 0 < (write x).length) (xs : List β) :
    xs.length ≤ (writeList write xs).length := by
  have items : xs.length ≤ (xs.flatMap write).length := by
    induction xs with
    | nil => exact Nat.zero_le _
    | cons x xs ih =>
      have first := some x
      rw [List.flatMap_cons, List.length_append, List.length_cons]
      omega
  rw [writeList, List.length_append]
  exact Nat.le_trans items (Nat.le_add_left _ _)

end LetStack.MessagePack
