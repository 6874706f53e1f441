import LetStack.Proofs.Files.Walk

/-!
`FileTree.makeDirectories` finds the last directory there and changes nothing, or ends with a new directory in which
nothing stands (`makeDirectories_made`).
-/

namespace LetStack.FileTree
open LetStack.Path

variable {t t' : FileTree} {rooted : Bool} {es front : List Bytes} {e p : Bytes}

/-! ## Where a path leads -/

/-- The directory that a path starts from. -/
def origin (t : FileTree) (rooted : Bool) : List Bytes := if rooted then [] else elements t.workDir

theorem Sound.origin (sound : t.Sound) (rooted : Bool) : t.entry? (t.origin rooted) = some .directory := by
  cases rooted with
  | true => rfl
  | false => exact sound.workDir

theorem place_of_ok {follow : Bool} {place : Place} (ok : t.place follow p = .ok place) (t' : FileTree)
    (follow' : Bool) :
    t'.place follow' p = t'.walk follow' maxLinks (t'.origin (isAbsolute p)) (Bytes.splitOn slash p) := by
  unfold FileTree.place at ok ⊢
  split at ok
  · cases ok
  next nonempty =>
  split at ok
  · cases ok
  next valid =>
  split at ok
  · cases ok
  next short =>
  rw [if_neg nonempty, if_neg valid, if_neg short]
  rfl

theorem place_directory {names : List Bytes} (ok : t.place false p = .ok (.found names .directory)) :
    t.place true p = .ok (.found names .directory) := by
  have walked := place_of_ok ok
  rw [walked] at ok ⊢
  exact reaches_iff.2 (exists_reaches ok)

theorem walk_ofElements (h : Normal rooted es) (some : es ≠ []) (follow : Bool) (links : Nat)
    (start more : List Bytes) :
    t.walk follow links start (Bytes.splitOn slash (ofElements rooted es) ++ more) =
      t.walk follow links start (es ++ more) := by
  rw [splitOn_ofElements h some]
  cases rooted with
  | true => exact walk_empty ..
  | false => rfl

theorem place_ofElements (h : Normal rooted es) (some : es ≠ []) {follow : Bool} {place : Place}
    (ok : t.place follow (ofElements rooted es) = .ok place) (t' : FileTree) (follow' : Bool) :
    t'.place follow' (ofElements rooted es) = t'.walk follow' maxLinks (t'.origin rooted) es := by
  have walked := walk_ofElements (t := t') h some follow' maxLinks (t'.origin rooted) []
  rw [List.append_nil, List.append_nil] at walked
  rw [place_of_ok ok, isAbsolute_ofElements h some, walked]

/-- A path written from elements, maybe with a slash behind them. -/
def Written (rooted : Bool) (es : List Bytes) (p : Bytes) : Prop :=
  p = ofElements rooted es ∨ p = ofElements rooted es ++ [slash]

theorem Written.reaches (h : Normal rooted es) (some : es ≠ []) (written : Written rooted es p) {follow : Bool}
    {dir : List Bytes} (ok : t.place follow p = .ok (.found dir .directory)) :
    ∃ left, t.Reaches maxLinks (t.origin rooted) es dir left := by
  rcases written with rfl | rfl
  · rw [place_ofElements h some ok] at ok
    exact exists_reaches ok
  · rw [place_of_ok ok, isAbsolute_append (ofElements_ne_nil h some), isAbsolute_ofElements h some,
      Bytes.splitOn_append, walk_ofElements h some] at ok
    obtain ⟨left, way⟩ := exists_reaches ok
    exact ⟨left, way.of_slash⟩

/-! ## Parents -/

theorem withoutSlashes_slash (p : Bytes) : withoutSlashes (p ++ [slash]) = withoutSlashes p := by
  unfold withoutSlashes
  rw [List.reverse_append]
  rfl

theorem withoutSlashes_name (nonempty : e ≠ []) (noSlash : slash ∉ e) (p : Bytes) :
    withoutSlashes (p ++ e) = p ++ e := by
  rcases List.eq_nil_or_concat e with rfl | ⟨begin, b, rfl⟩
  · exact absurd rfl nonempty
  · have other : b ≠ slash := fun same => noSlash (by simp [same])
    unfold withoutSlashes
    rw [List.concat_eq_append, ← List.append_assoc, List.reverse_append, List.reverse_singleton,
      List.singleton_append, List.dropWhile_cons_of_neg (by simpa using other), List.reverse_cons, List.reverse_reverse]

/-- The path of the directory above elements. -/
def above (rooted : Bool) (front : List Bytes) : Bytes :=
  if front = [] then if rooted then [slash] else [] else ofElements rooted front ++ [slash]

theorem ofElements_above (rooted : Bool) (front : List Bytes) (e : Bytes) :
    ofElements rooted (front ++ [e]) = above rooted front ++ e := by
  unfold above
  split
  · next none =>
    rw [none]
    cases rooted <;> rfl
  · next some => rw [ofElements_concat some, List.append_assoc]; rfl

section
variable (h : Normal rooted (front ++ [e])) (written : Written rooted (front ++ [e]) p)
include h written

theorem Written.withoutSlashes_eq : withoutSlashes p = ofElements rooted (front ++ [e]) := by
  obtain ⟨nonempty, noSlash⟩ := h.each e (by simp)
  have named : withoutSlashes (ofElements rooted (front ++ [e])) = ofElements rooted (front ++ [e]) := by
    rw [ofElements_above, withoutSlashes_name nonempty noSlash]
  rcases written with rfl | rfl
  · exact named
  · rw [withoutSlashes_slash, named]

theorem Written.parentPath_eq : parentPath p = above rooted front := by
  obtain ⟨nonempty, noSlash⟩ := h.each e (by simp)
  unfold parentPath
  rw [written.withoutSlashes_eq h, ofElements_above]
  unfold above
  split
  · cases rooted with
    | true => exact dropWhile_slash noSlash []
    | false =>
      have all : ∀ b ∈ e.reverse, decide (b ≠ slash) = true := by
        intro b mem
        exact decide_eq_true fun same => noSlash (same ▸ List.mem_reverse.1 mem)
      have none : (e.reverse ++ []).dropWhile (fun b => decide (b ≠ slash)) = [] := List.dropWhile_append_of_pos all
      rw [List.append_nil] at none
      exact congrArg List.reverse none
  · rw [List.append_assoc]
    exact dropWhile_slash noSlash _

end

/-! ## New directories -/

/-- After directories were made: the tree is as it was, or the last directory is new and nothing is in it. -/
structure Made (t t' : FileTree) (rooted : Bool) (es : List Bytes) : Prop where
  sound : t'.Sound
  empty : t' = t ∨ (∃ e ∈ es.getLast?, Plain e) ∧
    ∀ dir left, t'.Reaches maxLinks (t'.origin rooted) es dir left → ∀ name, t'.entry? (dir ++ [name]) = none

theorem keeps_insert {names : List Bytes} (missing : t.entry? names = none) (e : FileEntry) :
    t.Keeps (t.insert names e) := by
  intro names' e' found _
  rw [entry_insert_of_ne _ e, found]
  rintro rfl
  rw [missing] at found
  cases found

theorem Reaches.entry_of_plain {links left : Nat} {start dir : List Bytes} (plain : Plain e)
    (h : t.Reaches links start [e] dir left) :
    t.entry? (start ++ [e]) ≠ none ∧ (t.entry? (start ++ [e]) = some .directory → dir = start ++ [e]) := by
  cases h with
  | stay skipped _ => exact absurd skipped plain.not_skipped
  | up _ => exact absurd rfl plain.noDots
  | down _ _ _ found rest =>
    rw [found]
    cases rest
    exact ⟨nofun, fun _ => rfl⟩
  | link _ _ _ found _ =>
    rw [found]
    exact ⟨nofun, nofun⟩

theorem Sound.made (sound : t.Sound) (h : Normal rooted (front ++ [e])) {names : List Bytes} {slashed : Bool}
    (free : t.walk false maxLinks (t.origin rooted) (front ++ [e]) = .ok (.free names slashed)) (t₀ : FileTree) :
    Made t₀ (t.insert names .directory) rooted (front ++ [e]) := by
  have nonempty := (h.each e (by simp)).1
  obtain ⟨dir, left, way⟩ := exists_reaches_before nonempty free
  rw [way.walk_append false (.inr (by simp))] at free
  have inside := way.directory sound (sound.origin rooted)
  rcases h.last with ⟨rfl, -⟩ | plain
  · rw [walk, if_neg (by decide), if_pos rfl, walk] at free
    cases free
  obtain ⟨rfl, missing⟩ := walk_free plain.not_skipped plain.noDots free
  refine ⟨sound.insert inside fun _ => rfl, .inr ⟨⟨e, by simp, plain⟩, fun dir' left' way' name => ?_⟩⟩
  -- the names lead to the new directory and nowhere else
  obtain ⟨mid, between, before, last⟩ := way'.split
  obtain rfl : mid = dir := before.unique (way.mono (keeps_insert missing _))
  have new : dir' = mid ++ [e] := (last.entry_of_plain plain).2 (entry_insert_self (by simp) _)
  rw [new, entry_insert_of_ne (by simp)]
  cases below : t.entry? (mid ++ [e] ++ [name]) with
  | none => rfl
  | some found =>
    rw [sound.parent _ name (by rw [below]; exact Option.some_ne_none _)] at missing
    cases missing

theorem makeDirectoriesWithin_root (depth : Nat) : t.makeDirectoriesWithin depth [slash] = .ok t := by
  cases depth with
  | zero => rfl
  | succ depth =>
    have steps : t.place true [slash] = t.walk true maxLinks [] [[], []] := rfl
    have stat : t.stat [slash] = .ok .directory := by
      unfold stat lookup
      rw [steps, walk_empty, walk_empty, walk]
      rfl
    rw [makeDirectoriesWithin, stat]

/-- With those above it there, the last directory is made, or it is found there after all. -/
def LastMade (t t' : FileTree) (p : Bytes) : Prop :=
  (∃ names slashed, t.place false (withoutSlashes p) = .ok (.free names slashed) ∧ t' = t.insert names .directory) ∨
    t' = t ∧ ∃ names, t.place false p = .ok (.found names .directory)

theorem lastMade {result : Except FileError FileTree} (ok : result = .ok t')
    (same : result = match t.makeDirectory p with
      | .ok t => .ok t
      | .error e =>
        if (t.lookup "lstat" false p).toOption.map (·.2) = some .directory then .ok t else .error e) :
    LastMade t t' p := by
  rw [ok] at same
  split at same
  · next made =>
    unfold makeDirectory at made
    split at made
    · next names slashed free => exact .inl ⟨names, slashed, free, by rw [Except.ok.inj same, Except.ok.inj made]⟩
    · cases made
    · cases made
  · split at same
    · next there =>
      refine .inr ⟨Except.ok.inj same, ?_⟩
      unfold lookup at there
      split at there
      · next names e found =>
        obtain rfl : e = .directory := Option.some.inj there
        exact ⟨names, found⟩
      · cases there
      · cases there
    · cases same

/-- What making directories does: nothing, or the last one is made behind those above it. -/
theorem makeDirectoriesWithin_cases {depth : Nat} (ok : t.makeDirectoriesWithin depth p = .ok t') :
    t' = t ∨ ∃ t₁, t.stat p ≠ .ok .directory ∧
      (parentPath p = [] ∧ t₁ = t ∨
        parentPath p ≠ [] ∧ ∃ depth, t.makeDirectoriesWithin depth (parentPath p) = .ok t₁) ∧
      LastMade t₁ t' p := by
  cases depth with
  | zero => exact .inl (Except.ok.inj ok).symm
  | succ depth =>
    rw [makeDirectoriesWithin] at ok
    split at ok
    · exact .inl (Except.ok.inj ok).symm
    · cases ok
    next failed =>
    refine .inr ?_
    dsimp only at ok
    split at ok
    · next top => exact ⟨t, by rw [failed]; exact nofun, .inl ⟨top, rfl⟩, lastMade ok rfl⟩
    · next below =>
      cases parents : t.makeDirectoriesWithin depth (parentPath p) with
      | error reason =>
        rw [parents] at ok
        cases ok
      | ok t₁ =>
        rw [parents] at ok
        exact ⟨t₁, by rw [failed]; exact nofun, .inr ⟨below, depth, parents⟩, lastMade ok rfl⟩

theorem Made.step (sound : t.Sound) (h : Normal rooted (front ++ [e])) (written : Written rooted (front ++ [e]) p)
    (before : ∀ depth q t', front ≠ [] → Written rooted front q → t.makeDirectoriesWithin depth q = .ok t' →
      Made t t' rooted front)
    {depth : Nat} (ok : t.makeDirectoriesWithin depth p = .ok t') : Made t t' rooted (front ++ [e]) := by
  rcases makeDirectoriesWithin_cases ok with rfl | ⟨t₁, failed, parents, last⟩
  · exact ⟨sound, .inl rfl⟩
  have made : Made t t₁ rooted front := by
    rw [written.parentPath_eq h] at parents
    rcases parents with ⟨-, rfl⟩ | ⟨nonempty, depth, parents⟩
    · exact ⟨sound, .inl rfl⟩
    unfold above at nonempty parents
    split at parents
    · next top =>
      rw [if_pos top] at nonempty
      split at parents
      · rw [makeDirectoriesWithin_root] at parents
        exact ⟨Except.ok.inj parents ▸ sound, .inl (Except.ok.inj parents).symm⟩
      · next relative =>
        rw [if_neg relative] at nonempty
        exact absurd rfl nonempty
    · next below => exact before depth _ t₁ below (.inr rfl) parents
  unfold LastMade at last
  rw [written.withoutSlashes_eq h] at last
  rcases last with ⟨names, slashed, free, rfl⟩ | ⟨rfl, names, found⟩
  · rw [place_ofElements h (by simp) free] at free
    exact made.sound.made h free t
  · -- it was not there before, so the directory above is new, and then there is nothing in it
    rcases made.empty with rfl | ⟨⟨above, last, plain⟩, none⟩
    · refine absurd ?_ failed
      unfold stat lookup
      rw [place_directory found]
      rfl
    · obtain ⟨left, way⟩ := written.reaches h (by simp) found
      obtain ⟨mid, between, first, second⟩ := way.split
      rcases h.last with ⟨-, ups⟩ | name
      · exact absurd (ups above (List.mem_of_getLast? last)) plain.noDots
      · exact absurd (none mid between first e) (second.entry_of_plain name).1

theorem makeDirectories_made (sound : t.Sound) (h : Normal rooted es) (some : es ≠ [])
    (ok : t.makeDirectories (ofElements rooted es) = .ok t') : Made t t' rooted es := by
  suffices ∀ depth p t', es ≠ [] → Written rooted es p → t.makeDirectoriesWithin depth p = .ok t' →
      Made t t' rooted es from this _ _ _ some (.inl rfl) ok
  clear some ok
  induction h with
  | nil => exact fun _ _ _ some => absurd rfl some
  | up unrooted before ups ih => exact fun _ _ _ _ written ok => .step sound (.up unrooted before ups) written ih ok
  | name before plain ih => exact fun _ _ _ _ written ok => .step sound (.name before plain) written ih ok

end LetStack.FileTree
