import LetStack.Proofs.Text.Path
import LetStack.Source.FileSet

/-!
Offsets, positions and lines of a file, from the table of its line feeds. `countBelow` finds where an offset cuts the
table (`countBelow_eq`), so `positionOf` counts the line feeds before the offset and the bytes behind the last of them
(`positionOf_located`), and `lineText` is what lies between two line feeds (`lineText_lineFeeds`). Every file of a
file set has its own table (`FileSet.Filled.indexed`).
-/

namespace LetStack

/-! ## The table of line feeds -/

theorem lineFeedsFrom_append (offset : Nat) (x y : Bytes) :
    lineFeedsFrom offset (x ++ y) = lineFeedsFrom offset x ++ lineFeedsFrom (offset + x.length) y := by
  induction x generalizing offset with
  | nil => rfl
  | cons b x ih =>
    have shifted : offset + (b :: x).length = offset + 1 + x.length := by
      rw [List.length_cons, Nat.add_assoc, Nat.add_comm 1]
    rw [List.cons_append, shifted]
    by_cases feed : b = 0x0A
    · rw [lineFeedsFrom, lineFeedsFrom, if_pos feed, if_pos feed, ih, List.cons_append]
    · rw [lineFeedsFrom, lineFeedsFrom, if_neg feed, if_neg feed, ih]

theorem lineFeedsFrom_add (m offset : Nat) (x : Bytes) :
    lineFeedsFrom (m + offset) x = (lineFeedsFrom offset x).map (m + ·) := by
  induction x generalizing offset with
  | nil => rfl
  | cons b x ih =>
    by_cases feed : b = 0x0A
    · rw [lineFeedsFrom, lineFeedsFrom, if_pos feed, if_pos feed, Nat.add_assoc, ih, List.map_cons]
    · rw [lineFeedsFrom, lineFeedsFrom, if_neg feed, if_neg feed, Nat.add_assoc, ih]

theorem lineFeeds_append (x y : Bytes) : lineFeeds (x ++ y) = lineFeeds x ++ (lineFeeds y).map (x.length + ·) := by
  rw [lineFeeds, lineFeedsFrom_append, Nat.zero_add, ← Nat.add_zero x.length, lineFeedsFrom_add]
  rfl

variable {offset : Nat} {x content : Bytes}

theorem lineFeedsFrom_eq_nil (plain : 0x0A ∉ x) : lineFeedsFrom offset x = [] := by
  fun_induction lineFeedsFrom offset x with
  | case1 => rfl
  | case2 => exact absurd List.mem_cons_self plain
  | case3 offset b rest other ih => exact ih fun mem => plain (List.mem_cons_of_mem b mem)

theorem lineFeeds_feed_append (x y : Bytes) :
    lineFeeds (x ++ 0x0A :: y) = lineFeeds x ++ x.length :: (lineFeeds y).map (x.length + 1 + ·) := by
  have split : x ++ 0x0A :: y = x ++ ([0x0A] ++ y) := rfl
  have single : lineFeeds [0x0A] = [0] := rfl
  rw [split, lineFeeds_append, lineFeeds_append, single, List.map_append, List.map_map]
  simp [Function.comp_def, Nat.add_assoc]

theorem length_lineFeedsFrom (offset : Nat) (x : Bytes) : (lineFeedsFrom offset x).length = x.count 0x0A := by
  fun_induction lineFeedsFrom offset x with
  | case1 => rfl
  | case2 offset rest ih => rw [List.length_cons, ih, List.count_cons_self]
  | case3 offset b rest other ih => rw [ih, List.count_cons_of_ne other]

theorem lt_of_mem_lineFeedsFrom {n : Nat} (h : n ∈ lineFeedsFrom offset x) : n < offset + x.length := by
  fun_induction lineFeedsFrom offset x with
  | case1 => exact absurd h List.not_mem_nil
  | case2 offset rest ih =>
    rcases List.mem_cons.1 h with rfl | later
    · exact Nat.lt_add_of_pos_right (Nat.succ_pos _)
    · exact Nat.add_right_comm offset 1 rest.length ▸ ih later
  | case3 offset b rest other ih => exact Nat.add_right_comm offset 1 rest.length ▸ ih h

/-! ## Halving -/

/-- The search finds where a table is cut into the entries less than `n` and the others. -/
theorem countBelow_eq {table : Array Nat} {n k lo hi : Nat} (low : lo ≤ k) (high : k ≤ hi)
    (less : ∀ i < k, table.getD i 0 < n) (others : ∀ i, k ≤ i → i < hi → n ≤ table.getD i 0) :
    countBelow table n lo hi = k := by
  fun_induction countBelow table n lo hi with
  | case1 lo hi room mid below ih =>
    have inside : mid < hi := by omega
    have found : mid < k := Nat.lt_of_not_le fun behind => Nat.not_le_of_lt below (others mid behind inside)
    exact ih found high others
  | case2 lo hi room mid notBelow ih =>
    have inside : mid ≤ hi := by omega
    have found : k ≤ mid := Nat.le_of_not_lt fun before => notBelow (less mid before)
    exact ih low found fun i behind before => others i behind (Nat.lt_of_lt_of_le before inside)
  | case3 lo hi closed => exact Nat.le_antisymm low (Nat.le_trans high (Nat.le_of_not_lt closed))

theorem countBelow_append {front back : List Nat} {n : Nat} (less : ∀ m ∈ front, m < n) (others : ∀ m ∈ back, n ≤ m) :
    countBelow (front ++ back).toArray n 0 (front ++ back).toArray.size = front.length := by
  refine countBelow_eq (Nat.zero_le _) (by simp) (fun i before => ?_) (fun i behind inside => ?_)
  · simpa [Array.getD_eq_getD_getElem?, List.getElem?_append_left before, List.getElem?_eq_getElem before] using
      less _ (List.getElem_mem before)
  · have inside : i - front.length < back.length := by
      rw [List.size_toArray, List.length_append] at inside
      omega
    simpa [Array.getD_eq_getD_getElem?, List.getElem?_append_right behind, List.getElem?_eq_getElem inside] using
      others _ (List.getElem_mem inside)

theorem countBelow_lineFeeds (x y : Bytes) :
    countBelow (lineFeeds (x ++ y)).toArray x.length 0 (lineFeeds (x ++ y)).toArray.size = x.count 0x0A := by
  have less : ∀ m ∈ lineFeeds x, m < x.length := fun m mem => Nat.zero_add x.length ▸ lt_of_mem_lineFeedsFrom mem
  have others : ∀ m ∈ (lineFeeds y).map (x.length + ·), x.length ≤ m :=
    List.forall_mem_map.2 fun m _ => Nat.le_add_right _ _
  rw [lineFeeds_append, countBelow_append less others]
  exact length_lineFeedsFrom 0 x

theorem positionOf_first_line (y : Bytes) {offset : UInt32} (length : x.length = offset.toNat) (plain : 0x0A ∉ x) :
    positionOf (lineFeeds (x ++ y)) offset = { line := 1, column := offset + 1 } := by
  have none := countBelow_lineFeeds x y
  rw [length, List.count_eq_zero.2 plain] at none
  simp only [positionOf, none]

theorem positionOf_later_line {front back : Bytes} (y : Bytes) {offset : UInt32}
    (length : (front ++ 0x0A :: back).length = offset.toNat) (plain : 0x0A ∉ back) :
    positionOf (lineFeeds (front ++ 0x0A :: back ++ y)) offset =
      { line := UInt32.ofNat (front.count 0x0A + 2), column := offset - UInt32.ofNat front.length } := by
  have found := countBelow_lineFeeds (front ++ 0x0A :: back) y
  rw [length, List.count_append, List.count_cons_self, List.count_eq_zero.2 plain] at found
  have last : (lineFeeds (front ++ 0x0A :: back ++ y)).toArray.getD (front.count 0x0A) 0 = front.length := by
    rw [List.append_assoc, List.cons_append, lineFeeds_feed_append, ← length_lineFeedsFrom 0 front]
    simp [Array.getD_eq_getD_getElem?, lineFeeds]
  simp only [positionOf, found, last]

/-! ## Where an offset lies -/

/-- The line of an offset starts at `start`: at the beginning of the text or behind a line feed, with no line feed from
there to the offset. -/
structure StartsLine (content : Bytes) (offset start : Nat) : Prop where
  le : start ≤ offset
  first : start = 0 ∨ content[start - 1]? = some 0x0A
  same : 0x0A ∉ (content.take offset).drop start

theorem StartsLine.unique {start start' : Nat} (h : StartsLine content offset start)
    (h' : StartsLine content offset start') : start = start' := by
  -- The later of two starts would be behind a line feed that the earlier one has on its line.
  have noneLater : ∀ {a b}, StartsLine content offset a → StartsLine content offset b → ¬a < b := by
    intro a b ha hb later
    have feed : content[b - 1]? = some 0x0A := hb.first.resolve_left (Nat.ne_zero_of_lt later)
    have inside : ((content.take offset).drop a)[b - 1 - a]? = some 0x0A := by
      have := hb.le
      rw [List.getElem?_drop, Nat.add_sub_cancel' (by omega), List.getElem?_take_of_lt (by omega), feed]
    exact ha.same (List.mem_of_getElem? inside)
  exact Nat.le_antisymm (Nat.le_of_not_lt (noneLater h' h)) (Nat.le_of_not_lt (noneLater h h'))

/-- A position says where an offset lies. -/
structure Located (content : Bytes) (offset start : Nat) (p : Position) : Prop where
  starts : StartsLine content offset start
  line : p.line.toNat = 1 + (content.take offset).count 0x0A
  column : p.column.toNat = 1 + (offset - start)

theorem Located.eq {start : Nat} {p : Position} (h : Located content offset start p) :
    p = { line := UInt32.ofNat (1 + (content.take offset).count 0x0A),
          column := UInt32.ofNat (1 + (offset - start)) } := by
  rw [← h.line, ← h.column, UInt32.ofNat_toNat, UInt32.ofNat_toNat]

theorem exists_last_feed (h : 0x0A ∈ x) : ∃ front back, x = front ++ 0x0A :: back ∧ 0x0A ∉ back := by
  obtain ⟨back, front, split, plain⟩ := List.eq_append_cons_of_mem (List.mem_reverse.2 h)
  refine ⟨front.reverse, back.reverse, ?_, fun mem => plain (List.mem_reverse.1 mem)⟩
  rw [← List.reverse_reverse x, split]
  simp

/-- Line and column are counted in words, so one that should be 2^32 is 0. -/
theorem positionOf_words {offset : UInt32} (inside : offset.toNat ≤ content.length) :
    ∃ start, StartsLine content offset.toNat start ∧ positionOf (lineFeeds content) offset =
      { line := UInt32.ofNat (1 + (content.take offset.toNat).count 0x0A),
        column := UInt32.ofNat (1 + (offset.toNat - start)) } := by
  -- The table is cut where the text is: `x` is before the offset and `y` behind it.
  obtain ⟨x, y, rfl, length⟩ : ∃ x y, content = x ++ y ∧ x.length = offset.toNat :=
    ⟨_, _, (List.take_append_drop offset.toNat content).symm, List.length_take_of_le inside⟩
  have before : (x ++ y).take offset.toNat = x := by rw [← length, List.take_left]
  by_cases feed : 0x0A ∈ x
  · obtain ⟨front, back, rfl, plain⟩ := exists_last_feed feed
    have last : front.length < offset.toNat := by
      rw [← length, List.length_append, List.length_cons]
      omega
    have starts : StartsLine (front ++ 0x0A :: back ++ y) offset.toNat (front.length + 1) :=
      ⟨last, .inr (by simp), by rw [before]; simpa using plain⟩
    refine ⟨front.length + 1, starts, ?_⟩
    rw [positionOf_later_line y length plain]
    congr 1
    · rw [before, List.count_append, List.count_cons_self, List.count_eq_zero.2 plain, Nat.add_comm 1]
    · have distance : 1 + (offset.toNat - (front.length + 1)) = offset.toNat - front.length := by omega
      rw [distance, UInt32.ofNat_sub (Nat.le_of_lt last), UInt32.ofNat_toNat]
  · have starts : StartsLine (x ++ y) offset.toNat 0 := ⟨Nat.zero_le _, .inl rfl, by rw [before]; exact feed⟩
    refine ⟨0, starts, ?_⟩
    rw [positionOf_first_line y length feed]
    congr 1
    · rw [before, List.count_eq_zero.2 feed]
      rfl
    · rw [Nat.sub_zero, Nat.add_comm, UInt32.ofNat_add, UInt32.ofNat_toNat]
      rfl

theorem positionOf_located {offset : UInt32} (inside : offset.toNat ≤ content.length)
    (room : offset.toNat + 1 < UInt32.size) :
    ∃ start, Located content offset.toNat start (positionOf (lineFeeds content) offset) := by
  obtain ⟨start, starts, words⟩ := positionOf_words inside
  have feeds : (content.take offset.toNat).count 0x0A ≤ offset.toNat :=
    Nat.le_trans List.count_le_length (List.length_take_le _ _)
  refine ⟨start, starts, ?_, ?_⟩
  · rw [words]
    exact UInt32.toNat_ofNat_of_lt' (by omega)
  · rw [words]
    exact UInt32.toNat_ofNat_of_lt' (by omega)

/-! ## Lines -/

/-- The bytes of a line, with the carriage return at their end: from behind the line feed before to the one behind. -/
def rawLine (content : Bytes) (feeds : List Nat) : Nat → Option Bytes
  | 0 => some (content.take ((feeds[0]?).getD content.length))
  | i + 1 => (feeds[i]?).map fun feed => (content.take ((feeds[i + 1]?).getD content.length)).drop (feed + 1)

theorem lineText_eq_rawLine (content : Bytes) (feeds : List Nat) {k : UInt32} (positive : k ≠ 0) :
    lineText content feeds k = dropReturn ((rawLine content feeds (k.toNat - 1)).getD []) := by
  rw [lineText, if_neg positive]
  by_cases first : k = 1
  · subst first
    rfl
  · obtain ⟨i, number⟩ : ∃ i, k.toNat = i + 2 := by
      have notZero : k.toNat ≠ 0 := fun zero => positive (UInt32.toNat_inj.1 zero)
      have notOne : k.toNat ≠ 1 := fun one => first (UInt32.toNat_inj.1 one)
      exact ⟨k.toNat - 2, by omega⟩
    simp only [if_neg first, number, Nat.add_sub_cancel, Nat.add_succ_sub_one, rawLine]
    cases feeds[i]? with
    | none => rfl
    | some feed => rfl

theorem rawLine_append {front : Bytes} {feed : Nat} (length : front.length = feed + 1) (back : Bytes)
    (feeds : List Nat) (i : Nat) :
    rawLine (front ++ back) (feed :: feeds.map (front.length + ·)) (i + 1) = rawLine back feeds i := by
  have stop : ∀ j, ((feeds.map (front.length + ·))[j]?).getD (front ++ back).length =
      front.length + (feeds[j]?).getD back.length := fun j => by
    rw [List.getElem?_map, List.length_append]
    cases feeds[j]? with
    | none => rfl
    | some n => rfl
  have cut : ∀ start n, ((front ++ back).take (front.length + n)).drop (front.length + start) =
      (back.take n).drop start := fun start n => by
    rw [List.take_length_add_append, List.drop_length_add_append]
  cases i with
  | zero =>
    simp only [rawLine, List.getElem?_cons_succ, List.getElem?_cons_zero, Option.map_some, stop, ← length]
    exact congrArg some (cut 0 _)
  | succ i =>
    simp only [rawLine, List.getElem?_cons_succ, stop]
    rw [List.getElem?_map, Option.map_map]
    refine congrArg (Option.map · feeds[i]?) (funext fun n => ?_)
    exact cut (n + 1) _

theorem rawLine_lineFeeds (content : Bytes) (i : Nat) :
    rawLine content (lineFeeds content) i = (Bytes.splitOn 0x0A content)[i]? := by
  by_cases feed : 0x0A ∈ content
  · obtain ⟨front, back, rfl, plain⟩ := List.eq_append_cons_of_mem feed
    have table : lineFeeds (front ++ 0x0A :: back) = front.length :: (lineFeeds back).map (front.length + 1 + ·) := by
      rw [lineFeeds_feed_append, lineFeeds, lineFeedsFrom_eq_nil plain, List.nil_append]
    rw [Bytes.splitOn_append, Bytes.splitOn_single plain, List.singleton_append, table]
    cases i with
    | zero => simp [rawLine]
    | succ i =>
      have length : (front ++ [0x0A]).length = front.length + 1 := List.length_append
      have later := rawLine_append length back (lineFeeds back) i
      rw [length, List.append_assoc, List.singleton_append, rawLine_lineFeeds back i] at later
      exact later
  · rw [lineFeeds, lineFeedsFrom_eq_nil feed, Bytes.splitOn_single feed]
    cases i with
    | zero => simp [rawLine]
    | succ i => simp [rawLine]
termination_by content.length

theorem dropReturn_eq (x : Bytes) : dropReturn x = if x.getLast? = some 0x0D then x.dropLast else x := by
  rcases List.eq_nil_or_concat x with rfl | ⟨front, b, rfl⟩
  · rfl
  · simp [dropReturn, Bytes.dropSuffix, Bytes.endsWith]

theorem lineText_lineFeeds (content : Bytes) {k : UInt32} (positive : k ≠ 0) :
    lineText content (lineFeeds content) k = dropReturn (((Bytes.splitOn 0x0A content)[k.toNat - 1]?).getD []) := by
  rw [lineText_eq_rawLine _ _ positive, rawLine_lineFeeds]

/-! ## File sets -/

inductive FileSet.Filled : FileSet → Prop
  | empty (base : Bytes) : Filled { base }
  | add {fs : FileSet} (path content : Bytes) (flags : UInt8) : Filled fs → Filled (fs.add path content flags).2

theorem FileSet.Filled.indexed {fs : FileSet} (filled : fs.Filled) {f : SourceFile} (mem : f ∈ fs.files) :
    f.lineFeeds = LetStack.lineFeeds f.content := by
  induction filled with
  | empty => exact absurd mem List.not_mem_nil
  | add path content flags _ ih =>
    rcases List.mem_append.1 mem with earlier | new
    · exact ih earlier
    · rw [List.mem_singleton.1 new]

/-- A file of three lines behind another file; its first line ends with a carriage return. -/
private def mixedLines : FileSet :=
  ((({} : FileSet).addVirtual "a" "x").2.addVirtual "b" "one\r\ntwo\nthree").2

/-- The longest line there can be. -/
private def longLine : Bytes := List.replicate 0xFFFFFFFF 0x61

end LetStack
