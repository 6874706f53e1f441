import LetStack.Text.Path

/-!
`Path.elements` is in normal form (`elements_normal`): no element is empty or a dot, and steps up come first. A path
written from elements in normal form is split into them again (`splitOn_ofElements`) and is clean
(`elements_ofElements`).
-/

namespace LetStack

/-! ## Splitting and joining -/

namespace Bytes

theorem splitOn_ne_nil (sep : UInt8) (x : Bytes) : splitOn sep x ≠ [] := by
  cases x with
  | nil => exact List.cons_ne_nil _ _
  | cons b x =>
    rw [splitOn]
    split
    · exact List.cons_ne_nil _ _
    · split <;> exact List.cons_ne_nil _ _

theorem splitOn_sep (sep : UInt8) (x : Bytes) : splitOn sep (sep :: x) = [] :: splitOn sep x := by
  rw [splitOn]
  split
  · next none => exact absurd none (splitOn_ne_nil sep x)
  · next same => rw [if_pos rfl, same]

variable {sep : UInt8}

theorem splitOn_other {b : UInt8} (h : b ≠ sep) {x piece : Bytes} {pieces : List Bytes}
    (rest : splitOn sep x = piece :: pieces) : splitOn sep (b :: x) = (b :: piece) :: pieces := by
  simp only [splitOn, rest, if_neg h]

theorem splitOn_append (sep : UInt8) (x y : Bytes) :
    splitOn sep (x ++ sep :: y) = splitOn sep x ++ splitOn sep y := by
  induction x with
  | nil => exact splitOn_sep sep y
  | cons b x ih =>
    rw [List.cons_append]
    by_cases same : b = sep
    · rw [same, splitOn_sep, splitOn_sep, ih, List.cons_append]
    · obtain ⟨piece, pieces, split⟩ := List.exists_cons_of_ne_nil (splitOn_ne_nil sep x)
      rw [split, List.cons_append] at ih
      rw [splitOn_other same ih, splitOn_other same split, List.cons_append]

theorem splitOn_single {x : Bytes} (h : sep ∉ x) : splitOn sep x = [x] := by
  induction x with
  | nil => rfl
  | cons b x ih =>
    have other : b ≠ sep := fun same => h (same ▸ List.mem_cons_self)
    exact splitOn_other other (ih fun mem => h (List.mem_cons_of_mem _ mem))

theorem sep_notMem_splitOn {x piece : Bytes} (h : piece ∈ splitOn sep x) : sep ∉ piece := by
  induction x generalizing piece with
  | nil => rw [List.mem_singleton.1 h]; exact List.not_mem_nil
  | cons b x ih =>
    by_cases same : b = sep
    · rw [same, splitOn_sep] at h
      rcases List.mem_cons.1 h with rfl | later
      · exact List.not_mem_nil
      · exact ih later
    · obtain ⟨first, pieces, split⟩ := List.exists_cons_of_ne_nil (splitOn_ne_nil sep x)
      rw [splitOn_other same split] at h
      rw [split] at ih
      rcases List.mem_cons.1 h with rfl | later
      · intro mem
        rcases List.mem_cons.1 mem with here | inside
        · exact same here.symm
        · exact ih List.mem_cons_self inside
      · exact ih (List.mem_cons_of_mem _ later)

theorem join_concat (sep : Bytes) {xs : List Bytes} (some : xs ≠ []) (x : Bytes) :
    join sep (xs ++ [x]) = join sep xs ++ sep ++ x := by
  induction xs with
  | nil => exact absurd rfl some
  | cons y xs ih =>
    cases xs with
    | nil => rfl
    | cons z xs =>
      have rest := ih (List.cons_ne_nil z xs)
      show y ++ sep ++ join sep (z :: xs ++ [x]) = y ++ sep ++ join sep (z :: xs) ++ sep ++ x
      rw [rest, List.append_assoc, List.append_assoc, List.append_assoc, List.append_assoc, List.append_assoc]

end Bytes

namespace Path

theorem slash_eq : Bytes.ofString "/" = [slash] := by decide

variable {es : List Bytes} {e p : Bytes} {rooted : Bool}

theorem splitOn_join (some : es ≠ []) (h : ∀ e ∈ es, slash ∉ e) : Bytes.splitOn slash (Bytes.join "/" es) = es := by
  induction es with
  | nil => exact absurd rfl some
  | cons e es ih =>
    cases es with
    | nil => exact Bytes.splitOn_single (h e List.mem_cons_self)
    | cons e' es =>
      have rest := ih (List.cons_ne_nil _ _) fun x mem => h x (List.mem_cons_of_mem _ mem)
      show Bytes.splitOn slash (e ++ "/" ++ Bytes.join "/" (e' :: es)) = _
      rw [slash_eq] at rest ⊢
      rw [List.append_assoc, List.singleton_append, Bytes.splitOn_append,
        Bytes.splitOn_single (h e List.mem_cons_self), rest, List.singleton_append]

/-! ## Normal form -/

/-- A name of a file or a directory. -/
structure Plain (name : Bytes) : Prop where
  nonempty : name ≠ []
  noDot : name ≠ "."
  noDots : name ≠ ".."
  noSlash : slash ∉ name

instance (name : Bytes) : Decidable (Plain name) :=
  decidable_of_iff (name ≠ [] ∧ name ≠ "." ∧ name ≠ ".." ∧ slash ∉ name)
    ⟨fun h => ⟨h.1, h.2.1, h.2.2.1, h.2.2.2⟩, fun h => ⟨h.nonempty, h.noDot, h.noDots, h.noSlash⟩⟩

/-- Elements of a clean path: names, and in front of them steps up if the path is not rooted. -/
inductive Normal (rooted : Bool) : List Bytes → Prop
  | nil : Normal rooted []
  | up {es : List Bytes} : rooted = false → Normal rooted es → (∀ e ∈ es, e = "..") →
      Normal rooted (es ++ [Bytes.ofString ".."])
  | name {es : List Bytes} {e : Bytes} : Normal rooted es → Plain e → Normal rooted (es ++ [e])

theorem Plain.not_skipped {name : Bytes} (h : Plain name) : ¬(name = [] ∨ name = ".") :=
  fun skipped => skipped.elim h.nonempty h.noDot

theorem push_plain (h : Plain e) (rooted : Bool) (es : List Bytes) : push rooted es e = es ++ [e] := by
  rw [push, if_neg h.not_skipped, if_neg h.noDots]

theorem Normal.dropLast (h : Normal rooted es) : Normal rooted es.dropLast := by
  cases h with
  | nil => exact .nil
  | up _ before _ => rwa [List.dropLast_concat]
  | name before _ => rwa [List.dropLast_concat]

/-- Behind a step up there are only such steps, and the path is not rooted. -/
theorem Normal.all_up (h : Normal rooted es) (last : es.getLast? = some "..") :
    rooted = false ∧ ∀ e ∈ es, e = ".." := by
  cases h with
  | nil => cases last
  | up unrooted _ all =>
    refine ⟨unrooted, fun e mem => ?_⟩
    rcases List.mem_append.1 mem with before | here
    · exact all e before
    · exact List.mem_singleton.1 here
  | name _ plain =>
    rw [List.getLast?_concat] at last
    exact absurd (Option.some.inj last) plain.noDots

theorem Normal.last (h : Normal rooted (es ++ [e])) : (e = ".." ∧ ∀ x ∈ es, x = "..") ∨ Plain e := by
  generalize all : es ++ [e] = whole at h
  cases h with
  | nil => simp at all
  | up _ _ ups =>
    obtain ⟨rfl, same⟩ := List.append_inj' all rfl
    exact .inl ⟨(List.cons.inj same).1, ups⟩
  | name _ plain =>
    obtain ⟨-, same⟩ := List.append_inj' all rfl
    exact .inr ((List.cons.inj same).1 ▸ plain)

theorem Normal.push (h : Normal rooted es) (piece : slash ∉ e) : Normal rooted (push rooted es e) := by
  unfold Path.push
  split
  · exact h
  next kept =>
  split
  · next dots =>
    split
    · next none =>
      rw [List.getLast?_eq_none_iff] at none
      split
      · exact .nil
      · next unrooted =>
        rw [dots]
        exact @Normal.up _ [] (Bool.eq_false_iff.2 unrooted) .nil nofun
    · next last found =>
      split
      · next up =>
        rw [up] at found
        obtain ⟨unrooted, all⟩ := h.all_up found
        rw [dots]
        exact .up unrooted h all
      · exact h.dropLast
  · next named => exact .name h ⟨fun none => kept (.inl none), fun dot => kept (.inr dot), named, piece⟩

theorem elements_normal (p : Bytes) : Normal (isAbsolute p) (elements p) := by
  have pieces : ∀ e ∈ Bytes.splitOn slash p, slash ∉ e := fun e mem => Bytes.sep_notMem_splitOn mem
  unfold elements
  generalize Bytes.splitOn slash p = es at pieces
  suffices ∀ start, Normal (isAbsolute p) start → Normal (isAbsolute p) (es.foldl (Path.push (isAbsolute p)) start) from
    this [] .nil
  induction es with
  | nil => exact fun _ h => h
  | cons e es ih =>
    intro start h
    exact ih (fun x mem => pieces x (List.mem_cons_of_mem _ mem)) _ (h.push (pieces e List.mem_cons_self))

section
variable {rooted : Bool} {es : List Bytes} (h : Normal rooted es)
include h

theorem Normal.each : ∀ e ∈ es, e ≠ [] ∧ slash ∉ e := by
  induction h with
  | nil => nofun
  | up _ _ _ ih =>
    intro e mem
    rcases List.mem_append.1 mem with before | here
    · exact ih e before
    · rw [List.mem_singleton.1 here]
      decide
  | name _ plain ih =>
    intro e mem
    rcases List.mem_append.1 mem with before | here
    · exact ih e before
    · rw [List.mem_singleton.1 here]
      exact ⟨plain.nonempty, plain.noSlash⟩

theorem Normal.foldl_push : es.foldl (Path.push rooted) [] = es := by
  induction h with
  | nil => rfl
  | up unrooted _ all ih =>
    rw [List.foldl_append, ih, List.foldl_cons, List.foldl_nil, Path.push, if_neg (by decide), if_pos rfl]
    split
    · next none => rw [unrooted, List.getLast?_eq_none_iff.1 none]; rfl
    · next last found => rw [if_pos (all last (List.mem_of_getLast? found))]
  | name _ plain ih =>
    rw [List.foldl_append, ih]
    exact push_plain plain rooted _

theorem splitOn_ofElements (some : es ≠ []) :
    Bytes.splitOn slash (ofElements rooted es) = if rooted then [] :: es else es := by
  have split := splitOn_join some fun e mem => (h.each e mem).2
  unfold ofElements
  cases rooted with
  | true => rw [if_pos rfl, if_pos rfl, Bytes.splitOn_sep, split]
  | false => rw [if_neg Bool.false_ne_true, if_neg some, if_neg Bool.false_ne_true, split]

theorem isAbsolute_ofElements (some : es ≠ []) : isAbsolute (ofElements rooted es) = rooted := by
  cases rooted with
  | true => rfl
  | false =>
    -- a path that is not rooted starts with its first name
    obtain ⟨e, rest, rfl⟩ := List.exists_cons_of_ne_nil some
    obtain ⟨nonempty, noSlash⟩ := h.each e List.mem_cons_self
    obtain ⟨b, e, rfl⟩ := List.exists_cons_of_ne_nil nonempty
    have first : (ofElements false ((b :: e) :: rest)).head? = Option.some b := by
      unfold ofElements
      rw [if_neg Bool.false_ne_true, if_neg some]
      cases rest <;> rfl
    have other : b ≠ slash := fun same => noSlash (same ▸ List.mem_cons_self)
    rw [isAbsolute, first]
    simpa using other

theorem elements_ofElements (some : es ≠ []) : elements (ofElements rooted es) = es := by
  rw [elements, isAbsolute_ofElements h some, splitOn_ofElements h some]
  cases rooted with
  | true => exact h.foldl_push
  | false => exact h.foldl_push

end

theorem isAbsolute_clean (p : Bytes) : isAbsolute (clean p) = isAbsolute p := by
  unfold clean
  by_cases none : elements p = []
  · rw [none]
    cases isAbsolute p <;> decide
  · exact isAbsolute_ofElements (elements_normal p) none

theorem elements_clean (p : Bytes) : elements (clean p) = elements p := by
  unfold clean
  by_cases none : elements p = []
  · rw [none]
    cases isAbsolute p <;> decide
  · exact elements_ofElements (elements_normal p) none

theorem clean_clean (p : Bytes) : clean (clean p) = clean p := by
  rw [clean, isAbsolute_clean, elements_clean]
  rfl

theorem clean_join {ps : List Bytes} (some : join ps ≠ []) : clean (join ps) = join ps := by
  unfold join at some ⊢
  split at some
  · exact absurd rfl some
  · exact clean_clean _

theorem isAbsolute_append (some : p ≠ []) (x : Bytes) : isAbsolute (p ++ x) = isAbsolute p := by
  obtain ⟨b, p, rfl⟩ := List.exists_cons_of_ne_nil some
  rfl

/-- What stands behind a slash is put behind the elements so far. -/
theorem elements_append (some : p ≠ []) (x : Bytes) :
    elements (p ++ slash :: x) = (Bytes.splitOn slash x).foldl (Path.push (isAbsolute p)) (elements p) := by
  rw [elements, isAbsolute_append some, Bytes.splitOn_append, List.foldl_append]
  rfl

theorem elements_slash (some : p ≠ []) : elements (p ++ [slash]) = elements p := by
  rw [elements_append some]
  rfl

theorem ofElements_concat (some : es ≠ []) (e : Bytes) :
    ofElements rooted (es ++ [e]) = ofElements rooted es ++ slash :: e := by
  unfold ofElements
  rw [Bytes.join_concat "/" some, slash_eq, List.append_assoc, if_neg some]
  cases rooted with
  | true => rfl
  | false => rw [if_neg Bool.false_ne_true, if_neg Bool.false_ne_true, if_neg (by simp)]; rfl

theorem ofElements_ne_nil (h : Normal rooted es) (some : es ≠ []) : ofElements rooted es ≠ [] := by
  intro none
  have split := splitOn_ofElements h some
  rw [none] at split
  cases rooted with
  | true =>
    rw [if_pos rfl] at split
    exact some (List.cons.inj split).2.symm
  | false =>
    rw [if_neg Bool.false_ne_true] at split
    exact (h.each [] (split ▸ List.mem_singleton_self _)).1 rfl

theorem clean_ne_nil (p : Bytes) : clean p ≠ [] := by
  unfold clean
  by_cases none : elements p = []
  · rw [none]
    cases isAbsolute p <;> decide
  · exact ofElements_ne_nil (elements_normal p) none

theorem dropWhile_slash (h : slash ∉ e) (p : Bytes) :
    ((p ++ slash :: e).reverse.dropWhile (· ≠ slash)).reverse = p ++ [slash] := by
  have behind : ∀ b ∈ e.reverse, decide (b ≠ slash) = true := by
    intro b mem
    exact decide_eq_true fun same => h (same ▸ List.mem_reverse.1 mem)
  rw [List.reverse_append, List.reverse_cons, List.append_assoc, List.dropWhile_append_of_pos behind]
  simp

theorem dir_ofElements (h : Normal rooted es) (some : es ≠ []) (plain : Plain e) :
    dir (ofElements rooted (es ++ [e])) = ofElements rooted es := by
  have nonempty := ofElements_ne_nil h some
  rw [dir, ofElements_concat some, dropWhile_slash plain.noSlash, clean, isAbsolute_append nonempty,
    elements_slash nonempty, isAbsolute_ofElements h some, elements_ofElements h some]

/-- Plain names joined to a path come behind its elements. -/
theorem join_plain {a b : Bytes} (ha : Plain a) (hb : Plain b) (p : Bytes) :
    join [p, a, b] = ofElements (isAbsolute p) (elements p ++ [a, b]) := by
  have names : (Bytes.splitOn slash (a ++ slash :: b)) = [a, b] := by
    rw [Bytes.splitOn_append, Bytes.splitOn_single ha.noSlash, Bytes.splitOn_single hb.noSlash]
    rfl
  have pushed (rooted : Bool) (es : List Bytes) : [a, b].foldl (Path.push rooted) es = es ++ [a, b] := by
    rw [List.foldl_cons, List.foldl_cons, List.foldl_nil, push_plain ha, push_plain hb, List.append_assoc]
    rfl
  by_cases empty : p = []
  · have relative : isAbsolute (a ++ slash :: b) = false := by
      obtain ⟨first, rest, rfl⟩ := List.exists_cons_of_ne_nil ha.nonempty
      have other : first ≠ slash := fun same => ha.noSlash (same ▸ List.mem_cons_self)
      simpa [isAbsolute] using other
    have joined : join [p, a, b] = clean (a ++ slash :: b) := by
      simp [join, empty, ha.nonempty, Bytes.join, slash_eq]
    rw [joined, clean, elements, relative, names, pushed, empty]
    rfl
  · have joined : join [p, a, b] = clean (p ++ slash :: (a ++ slash :: b)) := by
      simp [join, empty, Bytes.join, slash_eq]
    rw [joined, clean, isAbsolute_append empty, elements_append empty, names, pushed]

theorem foldl_push_plain {names : List Bytes} (plain : ∀ name ∈ names, Plain name) (rooted : Bool) (es : List Bytes) :
    names.foldl (Path.push rooted) es = es ++ names := by
  induction names generalizing es with
  | nil => exact (List.append_nil es).symm
  | cons name names ih =>
    rw [List.foldl_cons, push_plain (plain name List.mem_cons_self),
      ih fun other mem => plain other (List.mem_cons_of_mem name mem), List.append_assoc]
    rfl

theorem join_names {dir : Bytes} (some : dir ≠ []) {names : List Bytes} (plain : ∀ name ∈ names, Plain name) :
    join (dir :: names) = ofElements (isAbsolute dir) (elements dir ++ names) := by
  have skipped : (dir :: names).dropWhile (· = []) = dir :: names :=
    List.dropWhile_cons_of_neg (by simpa using some)
  unfold join
  rw [skipped]
  cases names with
  | nil => rw [List.append_nil]; rfl
  | cons name names =>
    have joined : Bytes.join "/" (dir :: name :: names) = dir ++ slash :: Bytes.join "/" (name :: names) := by
      show dir ++ "/" ++ Bytes.join "/" (name :: names) = _
      rw [slash_eq, List.append_assoc]
      rfl
    dsimp only
    rw [joined, clean, isAbsolute_append some, elements_append some,
      splitOn_join (List.cons_ne_nil _ _) fun e mem => (plain e mem).noSlash, foldl_push_plain plain]

theorem Normal.plain {es : List Bytes} (h : Normal true es) : ∀ e ∈ es, Plain e := by
  induction h with
  | nil => exact fun e mem => absurd mem List.not_mem_nil
  | up unrooted => cases unrooted
  | name _ plain ih =>
    intro e mem
    rcases List.mem_append.1 mem with before | here
    · exact ih e before
    · rwa [List.mem_singleton.1 here]

theorem Normal.behind {front : List Bytes} (h : Normal rooted (front ++ es)) : Normal false es := by
  generalize all : front ++ es = whole at h
  induction h generalizing es with
  | nil => exact (List.append_eq_nil_iff.1 all).2 ▸ .nil
  | up _ _ ups ih =>
    rcases List.eq_nil_or_concat es with rfl | ⟨before, e, rfl⟩
    · exact .nil
    · rw [List.concat_eq_append, ← List.append_assoc] at all
      obtain ⟨rfl, same⟩ := List.append_inj' all rfl
      rw [List.concat_eq_append, same]
      exact .up rfl (ih rfl) fun x mem => ups x (List.mem_append_right front mem)
  | name _ plain ih =>
    rcases List.eq_nil_or_concat es with rfl | ⟨before, e, rfl⟩
    · exact .nil
    · rw [List.concat_eq_append, ← List.append_assoc] at all
      obtain ⟨rfl, same⟩ := List.append_inj' all rfl
      rw [List.concat_eq_append, same]
      exact .name (ih rfl) plain

theorem Normal.append {names : List Bytes} (h : Normal rooted es) (plain : ∀ name ∈ names, Plain name) :
    Normal rooted (es ++ names) := by
  induction names generalizing es with
  | nil => exact (List.append_nil es).symm ▸ h
  | cons name names ih =>
    rw [List.append_cons]
    exact ih (.name h (plain name List.mem_cons_self)) fun other mem => plain other (List.mem_cons_of_mem name mem)

theorem elements_join {dir : Bytes} (some : dir ≠ []) {names : List Bytes} (below : names ≠ [])
    (plain : ∀ name ∈ names, Plain name) :
    elements (join (dir :: names)) = elements dir ++ names ∧ isAbsolute (join (dir :: names)) = isAbsolute dir := by
  have normal := (elements_normal dir).append plain
  have nonempty : elements dir ++ names ≠ [] := fun none => below (List.append_eq_nil_iff.1 none).2
  rw [join_names some plain]
  exact ⟨elements_ofElements normal nonempty, isAbsolute_ofElements normal nonempty⟩

/-! ## Paths from the root -/

theorem ne_nil_of_isAbsolute (rooted : isAbsolute p = true) : p ≠ [] := by
  rintro rfl
  cases rooted

theorem absolute_relative {dir : Bytes} (rooted : isAbsolute dir = true) (relative : isAbsolute p = false) :
    absolute dir p = clean (dir ++ slash :: p) := by
  have skipped : [dir, p].dropWhile (· = []) = [dir, p] :=
    List.dropWhile_cons_of_neg (by simpa using ne_nil_of_isAbsolute rooted)
  rw [absolute, if_neg (Bool.eq_false_iff.1 relative), join, skipped]
  show clean (dir ++ "/" ++ p) = _
  rw [slash_eq, List.append_assoc]
  rfl

theorem isAbsolute_absolute {dir : Bytes} (rooted : isAbsolute dir = true) (p : Bytes) :
    isAbsolute (absolute dir p) = true := by
  by_cases own : isAbsolute p = true
  · rwa [absolute, if_pos own, isAbsolute_clean]
  · rwa [absolute_relative rooted (Bool.eq_false_iff.2 own), isAbsolute_clean,
      isAbsolute_append (ne_nil_of_isAbsolute rooted)]

theorem absolute_eq {dir : Bytes} (rooted : isAbsolute dir = true) (p : Bytes) :
    absolute dir p = ofElements true (elements (absolute dir p)) := by
  have cleaned : clean (absolute dir p) = absolute dir p := by
    by_cases own : isAbsolute p = true
    · rw [absolute, if_pos own, clean_clean]
    · rw [absolute_relative rooted (Bool.eq_false_iff.2 own), clean_clean]
  rw [clean, isAbsolute_absolute rooted] at cleaned
  exact cleaned.symm

end Path

end LetStack
