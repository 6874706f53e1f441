import LetStack.Diagnostic.Snippet
import LetStack.Proofs.Source.Positions
import LetStack.Proofs.Text.Bytes

/-!
What `Snippet.ofSpan?` draws. `linesTo?` is a count of lines in 32 bits (`linesTo?_eq_some`), which ends unless the
last one is the greatest (`linesTo?_of_lt`, `linesTo?_of_greatest`). `extentOf` cuts the columns of both ends of the
span to the text of its first line, so the marks are under the part of the span on that line (`OnLine.covered_eq`,
`snippet_underlines_span`).
-/

namespace LetStack

/-! ## The line of an offset -/

namespace Bytes

theorem splitOn_head? (sep : UInt8) (x : Bytes) : (splitOn sep x)[0]? = some (x.takeWhile (· ≠ sep)) := by
  induction x with
  | nil => rfl
  | cons b x ih =>
    by_cases same : b = sep
    · rw [same, splitOn_sep, List.takeWhile_cons_of_neg (by simp)]
      rfl
    · obtain ⟨piece, pieces, split⟩ := List.exists_cons_of_ne_nil (splitOn_ne_nil sep x)
      rw [split] at ih
      rw [splitOn_other same split, List.takeWhile_cons_of_pos (by simpa using same), ← Option.some.inj ih]
      rfl

theorem length_splitOn (sep : UInt8) (x : Bytes) : (splitOn sep x).length = x.count sep + 1 := by
  induction x with
  | nil => rfl
  | cons b x ih =>
    by_cases same : b = sep
    · rw [same, splitOn_sep, List.length_cons, ih, List.count_cons_self]
    · obtain ⟨piece, pieces, split⟩ := List.exists_cons_of_ne_nil (splitOn_ne_nil sep x)
      rw [splitOn_other same split, List.count_cons_of_ne same, ← ih, split, List.length_cons, List.length_cons]

end Bytes

def textLines (content : Bytes) : List Bytes := (Bytes.splitOn 0x0A content).map dropReturn

theorem line_eq_textLines {f : SourceFile} (table : f.lineFeeds = lineFeeds f.content) {k : UInt32} (positive : k ≠ 0) :
    f.line k = ((textLines f.content)[k.toNat - 1]?).getD [] := by
  rw [SourceFile.line, table, lineText_lineFeeds _ positive, textLines, List.getElem?_map]
  cases (Bytes.splitOn 0x0A f.content)[k.toNat - 1]? with
  | none => rfl
  | some piece => rfl

section
variable {content : Bytes} {offset offset' start : Nat}

theorem drop_take_append (x : Bytes) (first : start ≤ offset) (second : offset ≤ offset') :
    (x.take offset').drop start = (x.take offset).drop start ++ (x.take offset').drop offset := by
  have distance : offset' - start = offset - start + (offset' - offset) := by omega
  rw [List.drop_take, distance, List.take_add, List.drop_drop, Nat.add_sub_cancel' first, ← List.drop_take,
    ← List.drop_take]

theorem count_take_eq (x : Bytes) (ordered : offset ≤ offset') :
    (x.take offset').count 0x0A = (x.take offset).count 0x0A + ((x.take offset').drop offset).count 0x0A := by
  have split := drop_take_append x (Nat.zero_le offset) ordered
  rw [List.drop_zero, List.drop_zero] at split
  rw [← List.count_append, ← split]

/-- The line of an offset is the piece of the text that starts where the line does. -/
theorem StartsLine.splitOn (h : StartsLine content offset start) :
    (Bytes.splitOn 0x0A content)[(content.take offset).count 0x0A]? =
      some ((content.drop start).takeWhile (· ≠ 0x0A)) := by
  rw [count_take_eq content h.le, List.count_eq_zero.2 h.same, Nat.add_zero]
  cases start with
  | zero => exact Bytes.splitOn_head? 0x0A content
  | succ last =>
    -- the lines before are those of the text in front of the line feed
    have behind : content[last]? = some 0x0A := h.first.resolve_left (Nat.succ_ne_zero last)
    obtain ⟨inside, feed⟩ := List.getElem?_eq_some_iff.1 behind
    have split : content = content.take last ++ 0x0A :: content.drop (last + 1) := by
      rw [← feed, ← List.drop_eq_getElem_cons inside, List.take_append_drop]
    have pieces := (congrArg (Bytes.splitOn 0x0A) split).trans (Bytes.splitOn_append 0x0A _ _)
    have feeds : (content.take (last + 1)).count 0x0A = (Bytes.splitOn 0x0A (content.take last)).length := by
      rw [Bytes.length_splitOn, List.take_succ_eq_append_getElem inside, feed, List.count_append,
        List.count_singleton_self]
    rw [feeds, pieces, List.getElem?_append_right (Nat.le_refl _), Nat.sub_self]
    exact Bytes.splitOn_head? 0x0A _

/-- The line that an offset lies on: its number, the offset it starts at, and its text without its end. -/
structure OnLine (content : Bytes) (offset number start : Nat) (text : Bytes) : Prop where
  starts : StartsLine content offset start
  number : number = 1 + (content.take offset).count 0x0A
  text : text = dropReturn ((content.drop start).takeWhile (· ≠ 0x0A))

end

section
variable {content text : Bytes} {offset offset' number start : Nat} (h : OnLine content offset number start text)
include h

theorem OnLine.listed : (textLines content)[number - 1]? = some text := by
  rw [h.number, Nat.add_sub_cancel_left, textLines, List.getElem?_map, h.starts.splitOn, h.text]
  rfl

theorem OnLine.isPrefix : text <+: content.drop start := by
  rw [h.text]
  exact (Bytes.dropSuffix_isPrefix _ _).trans <| List.takeWhile_prefix _

theorem OnLine.take_eq (column : Nat) :
    text.take column = (content.take (min (start + column) (start + text.length))).drop start := by
  have part := List.prefix_iff_eq_take.1 h.isPrefix
  rw [Nat.add_min_add_left, List.drop_take, Nat.add_sub_cancel_left, ← List.take_take, ← part]

theorem OnLine.before_eq :
    text.take (min (offset - start) text.length) = (content.take (min offset (start + text.length))).drop start := by
  rw [h.take_eq, ← Nat.add_min_add_left, Nat.add_sub_cancel' h.starts.le, Nat.min_assoc, Nat.min_self]

theorem OnLine.covered_eq (ordered : offset ≤ offset') :
    (text.take (min (offset' - start) text.length)).drop (min (offset - start) text.length) =
      (content.take (min offset' (start + text.length))).drop offset := by
  have later : start ≤ offset' := Nat.le_trans h.starts.le ordered
  rw [h.take_eq, ← Nat.add_min_add_left, Nat.add_sub_cancel' later, Nat.min_assoc, Nat.min_self, List.drop_drop,
    ← Nat.add_min_add_left, Nat.add_sub_cancel' h.starts.le]
  by_cases within : offset ≤ start + text.length
  · rw [Nat.min_eq_left within]
  · -- the offset is that of the end of the line, behind its text
    have short : (content.take (min offset' (start + text.length))).length ≤ start + text.length :=
      Nat.le_trans (List.length_take_le _ _) (Nat.min_le_right _ _)
    rw [Nat.min_eq_right (Nat.le_of_not_le within), List.drop_of_length_le short,
      List.drop_of_length_le (Nat.le_trans short (Nat.le_of_not_le within))]

theorem OnLine.same_start {start' : Nat} (ordered : offset ≤ offset') (h' : StartsLine content offset' start')
    (same : (content.take offset').count 0x0A = (content.take offset).count 0x0A) : start' = start := by
  rw [count_take_eq content ordered] at same
  have between : 0x0A ∉ (content.take offset').drop offset := List.count_eq_zero.1 (Nat.left_eq_add.1 same.symm)
  refine h'.unique ⟨Nat.le_trans h.starts.le ordered, h.starts.first, ?_⟩
  rw [drop_take_append content h.starts.le ordered]
  intro mem
  rcases List.mem_append.1 mem with before | behind
  · exact h.starts.same before
  · exact between behind

/-- An offset with a line feed in between lies behind the text of the line. -/
theorem OnLine.length_le (ordered : offset ≤ offset')
    (different : (content.take offset').count 0x0A ≠ (content.take offset).count 0x0A) :
    text.length ≤ offset' - start := by
  rw [count_take_eq content ordered] at different
  have feed : 0x0A ∈ (content.take offset').drop offset :=
    List.count_pos_iff.1 (Nat.pos_of_ne_zero fun none => different (by rw [none, Nat.add_zero]))
  have inside : 0x0A ∈ (content.drop start).take (offset' - start) := by
    rw [← List.drop_take, drop_take_append content h.starts.le ordered]
    exact List.mem_append_right _ feed
  -- a longer text would have the line feed in it
  refine Nat.le_of_not_lt fun longer => ?_
  have part : (content.drop start).take (offset' - start) <+: text := by
    rw [List.prefix_iff_eq_take.1 h.isPrefix]
    exact List.take_prefix_take_left (Nat.le_of_lt longer)
  rw [h.text] at part
  have plain := List.all_eq_true.1 List.all_takeWhile _ ((part.trans (Bytes.dropSuffix_isPrefix _ _)).mem inside)
  simp at plain

end

/-! ## Marks -/

namespace Snippet

theorem slice?_eq {line : Bytes} {first last : Nat} (ordered : first ≤ last) (inside : last ≤ line.length) :
    slice? line first last = some ((line.take last).drop first) := by
  rw [slice?, if_pos (by omega)]
  rfl

theorem covered?_eq {line : Bytes} {first last : Nat} (inside : last ≤ line.length) :
    Extent.covered? { first, last } line = some ((line.take last).drop first) := by
  unfold Extent.covered?
  by_cases some : first < last
  · rw [if_pos (Int.ofNat_lt.2 some), slice?_eq (Nat.le_of_lt some) inside]
  · have none : (line.take last).drop first = [] :=
      List.drop_of_length_le (Nat.le_trans (List.length_take_le _ _) (Nat.le_of_not_lt some))
    rw [if_neg fun less => some (Int.ofNat_lt.1 less), none]

theorem marked?_eq {line : Bytes} {start stop : Position} {first last : Nat}
    (x : extentOf line start stop = { first, last }) (hf : first ≤ line.length) (hl : last ≤ line.length) :
    marked? line start stop = some { before := line.take first, covered := (line.take last).drop first } := by
  have before : slice? line 0 first = some (line.take first) := slice?_eq (Nat.zero_le first) hf
  unfold marked?
  simp only [x, before, covered?_eq hl]
  rfl

/-- The columns of the two ends of a span, cut to the text of the line that it starts on. -/
theorem extentOf_eq {content text : Bytes} {offset offset' number start start' : Nat} {p q : Position}
    (h : OnLine content offset number start text) (first : Located content offset start p)
    (last : Located content offset' start' q) (ordered : offset ≤ offset') :
    extentOf text p q = { first := (min (offset - start) text.length : Nat),
                          last := (min (offset' - start) text.length : Nat) } := by
  obtain ⟨_, line, column⟩ := first
  obtain ⟨starts', line', column'⟩ := last
  have same : q.line = p.line ↔ (content.take offset').count 0x0A = (content.take offset).count 0x0A := by
    rw [← UInt32.toNat_inj, line, line', Nat.add_left_cancel_iff]
  unfold extentOf
  congr 1
  · rw [column]
    omega
  · split
    · next here =>
      rw [column', h.same_start ordered starts' (same.1 here)]
      omega
    · next later =>
      have behind := h.length_le ordered fun feeds => later (same.2 feeds)
      rw [Nat.min_eq_right behind]

theorem length_marks {n : Nat} (positive : 0 < n) : (marks n).length = n := by
  have mark : (Bytes.ofString "^").length = 1 := rfl
  have tail : (Bytes.ofString "~").length = 1 := rfl
  unfold marks Bytes.repeated
  rw [List.length_append, List.length_flatten, List.map_replicate, List.sum_replicate_nat, mark, tail, Nat.mul_one,
    Nat.add_sub_cancel' positive]

section
variable (measure : Bytes → Nat)

theorem length_marks_markWidth (m : Marked) :
    (marks (markWidth measure m)).length =
      max 1 (if m.covered = [] then 0 else measure (expandTabs m.covered)) := by
  have width : markWidth measure m = max 1 (if m.covered = [] then 0 else measure (expandTabs m.covered)) := by
    unfold markWidth
    split <;> rfl
  rw [width, length_marks (Nat.lt_of_lt_of_le Nat.zero_lt_one (Nat.le_max_left _ _))]

theorem length_marks_of_nothing {measure : Bytes → Nat} (nothing : measure [] = 0) (m : Marked) :
    (marks (markWidth measure m)).length = max 1 (measure (expandTabs m.covered)) := by
  have tabs : expandTabs [] = [] := by
    unfold expandTabs Bytes.replace
    rfl
  rw [length_marks_markWidth]
  split
  · next none => rw [none, tabs, nothing]
  · rfl

/-! ## Snippets -/

/-- Consecutive lines of a text, the first of the given number. -/
def shownLines (coloured : Bool) (gutter : Nat) (content : Bytes) (first count : Nat) : Bytes :=
  (List.range' first count).flatMap fun n => sourceLine coloured gutter n (((textLines content)[n - 1]?).getD [])

section
variable (coloured : Bool) (gutter : Nat) (f : SourceFile) {last : UInt32}

/-- A line is shown, and then those from the next number in 32 bits, until a number is greater than the last. -/
inductive Counted (last : UInt32) : UInt32 → Bytes → Prop
  | done {n : UInt32} : ¬n ≤ last → Counted last n []
  | next {n : UInt32} {rest : Bytes} : n ≤ last → Counted last (n + 1) rest →
      Counted last n (sourceLine coloured gutter n.toNat (f.line n) ++ rest)

variable {coloured gutter f}

theorem toNat_next {n : UInt32} (within : n ≤ last) (less : last.toNat < 0xFFFFFFFF) : (n + 1).toNat = n.toNat + 1 := by
  rw [UInt32.le_iff_toNat_le] at within
  rw [UInt32.toNat_add]
  exact Nat.mod_eq_of_lt (by show n.toNat + 1 < _; omega)

/-- No number is greater than the greatest. -/
theorem Counted.last_lt {n : UInt32} {shown : Bytes} (counted : Counted coloured gutter f last n shown) :
    last.toNat < 0xFFFFFFFF := by
  induction counted with
  | @done n greater =>
    have most := n.toNat_lt
    rw [UInt32.le_iff_toNat_le] at greater
    omega
  | next _ _ ih => exact ih

/-- What is drawn are the lines that are counted, if the count ends. -/
theorem linesTo?_eq_some {n : UInt32} {shown : Bytes} :
    linesTo? coloured gutter f last n = some shown ↔ Counted coloured gutter f last n shown := by
  constructor
  · intro drawn
    fun_induction linesTo? coloured gutter f last n generalizing shown with
    | case1 n within _ ih =>
      obtain ⟨rest, later, line⟩ := Option.bind_eq_some_iff.1 drawn
      cases line
      exact .next within (ih later)
    | case2 => cases drawn
    | case3 n greater =>
      cases drawn
      exact .done greater
  · intro counted
    induction counted with
    | done greater => rw [linesTo?, if_neg greater]
    | @next n rest within later ih =>
      have up : n < n + 1 := by
        rw [UInt32.lt_iff_toNat_lt, toNat_next within later.last_lt]
        exact Nat.lt_succ_self _
      rw [linesTo?, if_pos within, if_pos up, ih]
      rfl

/-- Counting up to the greatest line never ends. -/
theorem linesTo?_of_greatest (n : UInt32) : linesTo? coloured gutter f 0xFFFFFFFF n = none := by
  refine Option.eq_none_iff_forall_not_mem.2 fun shown drawn => ?_
  exact absurd (linesTo?_eq_some.1 drawn).last_lt (by decide)

/-- Counting up to a line that is not the greatest comes to an end. -/
theorem linesTo?_of_lt (less : last.toNat < 0xFFFFFFFF) (n : UInt32) :
    linesTo? coloured gutter f last n = some ((List.range' n.toNat (last.toNat + 1 - n.toNat)).flatMap fun k =>
      sourceLine coloured gutter k (f.line (UInt32.ofNat k))) := by
  rw [linesTo?_eq_some]
  generalize left : last.toNat + 1 - n.toNat = count
  induction count generalizing n with
  | zero =>
    have behind : ¬n ≤ last := by
      rw [UInt32.le_iff_toNat_le]
      omega
    exact .done behind
  | succ count ih =>
    have within : n ≤ last := UInt32.le_iff_toNat_le.2 (by omega)
    have next := toNat_next within less
    have later := ih (n + 1) (by omega)
    rw [next] at later
    rw [List.range'_succ, List.flatMap_cons, UInt32.ofNat_toNat]
    exact .next within later

end

theorem shownLines_eq {f : SourceFile} (table : f.lineFeeds = lineFeeds f.content) {last : UInt32}
    (positive : 0 < last.toNat) (less : last.toNat < 0xFFFFFFFF) (coloured : Bool) (gutter : Nat) (context : Int) :
    linesTo? coloured gutter f last (.ofNat (firstLine last.toNat context)) =
      some (shownLines coloured gutter f.content (last.toNat - min context.toNat (last.toNat - 1))
        (min context.toNat (last.toNat - 1) + 1)) := by
  have first : firstLine last.toNat context = last.toNat - min context.toNat (last.toNat - 1) := by
    unfold firstLine
    omega
  have word {n : Nat} (within : n ≤ last.toNat) : (UInt32.ofNat n).toNat = n :=
    UInt32.toNat_ofNat_of_lt' (Nat.lt_of_le_of_lt within last.toNat_lt)
  have count : last.toNat + 1 - (last.toNat - min context.toNat (last.toNat - 1)) =
      min context.toNat (last.toNat - 1) + 1 := by omega
  rw [linesTo?_of_lt less, first, word (Nat.sub_le _ _), count]
  refine congrArg (some ∘ List.flatten) (List.map_congr_left fun n mem => ?_)
  have range := List.mem_range'_1.1 mem
  have same := @word n (by omega)
  have nonzero : UInt32.ofNat n ≠ 0 := by
    intro zero
    rw [zero] at same
    exact absurd same (by show 0 ≠ n; omega)
  rw [line_eq_textLines table nonzero, same]

/-- A line cut at a span that starts on it: its text in front of the span, and the part of the span that lies within
its text. -/
def cutAt (content : Bytes) (first last start : Nat) (text : Bytes) : Marked where
  before := (content.take (min first (start + text.length))).drop start
  covered := (content.take (min last (start + text.length))).drop first

theorem drawn?_eq {f : SourceFile} (table : f.lineFeeds = lineFeeds f.content) {text : Bytes}
    {offset offset' number start start' : Nat} {p q : Position} (h : OnLine f.content offset number start text)
    (first : Located f.content offset start p) (last : Located f.content offset' start' q) (ordered : offset ≤ offset')
    (coloured : Bool) (context : Int) :
    p.line ≠ 0 ∧ drawn? measure coloured context f p q =
      if number = 0xFFFFFFFF then none
      else some (shownLines coloured (Bytes.ofNat number).length f.content (number - min context.toNat (number - 1))
          (min context.toNat (number - 1) + 1) ++
        markLine measure coloured (Bytes.ofNat number).length (cutAt f.content offset offset' start text)) := by
  obtain rfl : p.line.toNat = number := first.line.trans h.number.symm
  have positive : 0 < p.line.toNat := h.number ▸ Nat.lt_add_right _ Nat.zero_lt_one
  have nonzero : p.line ≠ 0 := by
    intro zero
    rw [zero] at positive
    exact Nat.lt_irrefl 0 positive
  have own : f.line p.line = text := by
    rw [line_eq_textLines table nonzero, h.listed]
    rfl
  have cut := marked?_eq (extentOf_eq h first last ordered) (Nat.min_le_right _ _) (Nat.min_le_right _ _)
  rw [h.before_eq, h.covered_eq ordered] at cut
  refine ⟨nonzero, ?_⟩
  unfold drawn?
  split
  · next greatest =>
    have word : p.line = 0xFFFFFFFF := UInt32.toNat_inj.1 greatest
    simp only [word, linesTo?_of_greatest]
    rfl
  · next other =>
    have less : p.line.toNat < 0xFFFFFFFF := by
      have bound := p.line.toNat_lt
      omega
    simp only [own, cut, shownLines_eq table positive less]
    rfl

theorem ofSpan?_eq (coloured : Bool) (context : Int) {fs : FileSet} (filled : fs.Filled) {id : FileId}
    {f : SourceFile} (found : fs.get? id = some f) (short : f.content.length < 0xFFFFFFFF) (span : Span)
    (ordered : span.start ≤ span.stop) (inside : span.stop.toNat ≤ f.content.length) {number start : Nat} {text : Bytes}
    (line : OnLine f.content span.start.toNat number start text) :
    let above := min context.toNat (number - 1)
    let gutter := (Bytes.ofNat number).length
    let m := cutAt f.content span.start.toNat span.stop.toNat start text
    let x := extentOf text (fs.resolve id span).1 (fs.resolve id span).2
    (0 ≤ x.first ∧ x.first ≤ text.length ∧ x.last ≤ text.length) ∧
    ofSpan? measure coloured context (some fs) id span =
      if number = 0xFFFFFFFF then none
      else some (shownLines coloured gutter f.content (number - above) (above + 1) ++
        markLine measure coloured gutter m) := by
  have table : f.lineFeeds = lineFeeds f.content := filled.indexed (List.mem_of_getElem? found)
  have covers : span.isEmpty = false := decide_eq_false (UInt32.not_lt.2 ordered)
  have ordered : span.start.toNat ≤ span.stop.toNat := UInt32.le_iff_toNat_le.1 ordered
  have room : span.stop.toNat + 1 < UInt32.size := Nat.lt_of_le_of_lt (Nat.succ_le_succ inside) (Nat.succ_lt_succ short)
  obtain ⟨_, first⟩ := positionOf_located (Nat.le_trans ordered inside) (by omega)
  obtain ⟨start', last⟩ := positionOf_located inside room
  obtain rfl := line.starts.unique first.starts
  constructor
  · simp only [FileSet.resolve, found, covers, table, Bool.false_eq_true, if_false,
      extentOf_eq line first last ordered]
    omega
  · obtain ⟨nonzero, drawn⟩ := drawn?_eq measure table line first last ordered coloured context
    simp only [ofSpan?, Option.bind_some, found, covers, table, Bool.false_eq_true, if_false, if_neg nonzero, drawn]

end

/-- A file whose second line starts with a tab and ends with a carriage return. -/
private def tabbedLines : FileSet := (({} : FileSet).addVirtual "a" "let\r\n\tab\r\nc").2

/-- As many line feeds as a file may have. -/
private def lineFeedsOnly : Bytes := List.replicate 0xFFFFFFFE 0x0A

end Snippet

end LetStack
