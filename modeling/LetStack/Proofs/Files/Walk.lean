import LetStack.Files.Tree
import LetStack.Proofs.Text.Path

/-!
`Reaches` says which directory a list of names leads to, as `FileTree.walk` finds it (`reaches_iff`,
`Reaches.walk_append`). A tree that keeps the directories and links of another keeps what they lead to
(`Reaches.mono`). In a `Sound` tree everything stands in a directory.
-/

namespace LetStack.FileTree

/-! ## One name -/

section
variable (t : FileTree) (follow : Bool) (links : Nat) (here rest : List Bytes)

theorem walk_empty : t.walk follow links here ([] :: rest) = t.walk follow links here rest := by
  rw [walk, if_pos (.inl rfl)]

/-- The last name of a path leads to what stands there, if that is no link, or to the place for it. -/
theorem walk_last {name : Bytes} (plain : name ≠ [] ∧ name ≠ "." ∧ name ≠ ".." ∧ name.length ≤ 255) :
    (∀ e, t.entry? (here ++ [name]) = some e → (∀ target, e ≠ .link target) →
      t.walk follow links here [name] = .ok (.found (here ++ [name]) e)) ∧
    (t.entry? (here ++ [name]) = none →
      t.walk follow links here [name] = .ok (.free (here ++ [name]) false)) := by
  obtain ⟨nonempty, here', up, short⟩ := plain
  rw [walk, if_neg (fun stays => stays.elim nonempty here'), if_neg up, if_neg (Nat.not_lt.2 short)]
  dsimp only
  constructor
  · intro e found notLink
    rw [found]
    cases e with
    | directory =>
      dsimp only
      rw [walk]
    | link target => exact absurd rfl (notLink target)
    | file content => rfl
    | void => rfl
  · intro missing
    rw [missing]
    rfl

end

variable {t : FileTree}

section
variable {links : Nat} {here names : List Bytes} {name : Bytes} (named : ¬(name = [] ∨ name = "."))
  (noDots : name ≠ "..")
include named noDots

theorem walk_unfollowed : t.walk false links here [name] =
    if 255 < name.length then .error .nameTooLong
    else match t.entry? (here ++ [name]) with
      | none => .ok (.free (here ++ [name]) false)
      | some e => .ok (.found (here ++ [name]) e) := by
  rw [walk, if_neg named, if_neg noDots]
  split
  · rfl
  dsimp only
  split
  · next missing => rw [missing]; rfl
  · next found => rw [found, walk]
  · next found => rw [found, if_pos ⟨rfl, rfl⟩]
  · next found => rw [found, if_pos rfl]

theorem walk_found {e : FileEntry} (h : t.walk false links here [name] = .ok (.found names e)) :
    names = here ++ [name] ∧ t.entry? names = some e := by
  rw [walk_unfollowed named noDots] at h
  split at h
  · cases h
  split at h
  · cases h
  · next found =>
    cases h
    exact ⟨rfl, found⟩

theorem walk_free {slashed : Bool} (h : t.walk false links here [name] = .ok (.free names slashed)) :
    names = here ++ [name] ∧ t.entry? names = none := by
  rw [walk_unfollowed named noDots] at h
  split at h
  · cases h
  split at h
  · next missing =>
    cases h
    exact ⟨rfl, missing⟩
  · cases h

theorem walk_followed {place : Place} (h : t.walk true links here [name] = .ok place) :
    t.walk false links here [name] = .ok place ∨
      ∃ target, t.walk false links here [name] = .ok (.found (here ++ [name]) (.link target)) := by
  rw [walk_unfollowed named noDots]
  rw [walk, if_neg named, if_neg noDots] at h
  split at h
  · cases h
  next short =>
  rw [if_neg short]
  dsimp only at h
  split at h
  · next missing => rw [missing]; exact .inl h
  · next found => rw [walk] at h; rw [found]; exact .inl h
  · next target found => rw [found]; exact .inr ⟨target, rfl⟩
  · next found => rw [if_pos rfl] at h; rw [found]; exact .inl h

end

/-! ## Ways to directories -/

/-- Names lead from a directory to a directory; so many more links may then still be followed. -/
inductive Reaches (t : FileTree) : Nat → List Bytes → List Bytes → List Bytes → Nat → Prop
  | here {links : Nat} {dir : List Bytes} : Reaches t links dir [] dir links
  | stay {links left : Nat} {start rest dir : List Bytes} {name : Bytes} : name = [] ∨ name = "." →
      Reaches t links start rest dir left → Reaches t links start (name :: rest) dir left
  | up {links left : Nat} {start rest dir : List Bytes} :
      Reaches t links start.dropLast rest dir left → Reaches t links start (Bytes.ofString ".." :: rest) dir left
  | down {links left : Nat} {start rest dir : List Bytes} {name : Bytes} : ¬(name = [] ∨ name = ".") →
      name ≠ ".." → name.length ≤ 255 → t.entry? (start ++ [name]) = some .directory →
      Reaches t links (start ++ [name]) rest dir left → Reaches t links start (name :: rest) dir left
  | link {links left : Nat} {start rest dir : List Bytes} {name target : Bytes} : ¬(name = [] ∨ name = ".") →
      name ≠ ".." → name.length ≤ 255 → t.entry? (start ++ [name]) = some (.link target) →
      Reaches t links (if Path.isAbsolute target then [] else start) (Bytes.splitOn Path.slash target ++ rest)
        dir left →
      Reaches t (links + 1) start (name :: rest) dir left

theorem Reaches.walk_append {links left : Nat} {start names dir : List Bytes}
    (h : t.Reaches links start names dir left) (follow : Bool) {rest : List Bytes} (more : follow = true ∨ rest ≠ []) :
    t.walk follow links start (names ++ rest) = t.walk follow left dir rest := by
  induction h with
  | here => rfl
  | stay skipped _ ih => rw [List.cons_append, walk, if_pos skipped, ih]
  | up _ ih => rw [List.cons_append, walk, if_neg (by decide), if_pos rfl, ih]
  | down named noDots short found _ ih =>
    rw [List.cons_append, walk, if_neg named, if_neg noDots, if_neg (Nat.not_lt.2 short)]
    simp only [found]
    exact ih
  | @link _ _ _ others _ _ _ named noDots short found _ ih =>
    have followed : ¬(others ++ rest = [] ∧ (!follow) = true) := by
      rintro ⟨none, unfollowed⟩
      rcases more with same | some
      · rw [same] at unfollowed
        cases unfollowed
      · exact some (List.append_eq_nil_iff.1 none).2
    rw [List.cons_append, walk, if_neg named, if_neg noDots, if_neg (Nat.not_lt.2 short)]
    simp only [found]
    rw [if_neg followed, ← List.append_assoc]
    exact ih

theorem exists_reaches {follow : Bool} {links : Nat} {start names dir : List Bytes}
    (h : t.walk follow links start names = .ok (.found dir .directory)) :
    ∃ left, t.Reaches links start names dir left := by
  fun_induction walk t follow links start names with
  | case1 => cases h; exact ⟨_, .here⟩
  | case2 _ _ _ _ skipped ih =>
    obtain ⟨left, way⟩ := ih h
    exact ⟨left, .stay skipped way⟩
  | case3 _ _ _ _ ih =>
    obtain ⟨left, way⟩ := ih h
    exact ⟨left, .up way⟩
  | case7 _ _ _ _ named noDots short _ found ih =>
    obtain ⟨left, way⟩ := ih h
    exact ⟨left, .down named noDots (Nat.not_lt.1 short) found way⟩
  | case10 _ _ _ named noDots short _ _ found _ _ ih =>
    obtain ⟨left, way⟩ := ih h
    exact ⟨left, .link named noDots (Nat.not_lt.1 short) found way⟩
  | case8 => cases (Place.found.inj (Except.ok.inj h)).2
  | case11 _ _ _ _ _ _ _ _ notDirectory => exact absurd (Place.found.inj (Except.ok.inj h)).2 notDirectory
  | case4 | case5 | case6 | case9 | case12 => cases h

theorem reaches_iff {links : Nat} {start names dir : List Bytes} :
    t.walk true links start names = .ok (.found dir .directory) ↔ ∃ left, t.Reaches links start names dir left := by
  refine ⟨exists_reaches, fun ⟨left, way⟩ => ?_⟩
  have found : t.walk true links start (names ++ []) = t.walk true left dir [] := way.walk_append true (.inl rfl)
  rw [List.append_nil, walk] at found
  exact found

theorem exists_reaches_before {follow : Bool} {links : Nat} {start names : List Bytes} {name : Bytes} {place : Place}
    (some : name ≠ []) (h : t.walk follow links start (names ++ [name]) = .ok place) :
    ∃ dir left, t.Reaches links start names dir left := by
  generalize all : names ++ [name] = whole at h
  fun_induction walk t follow links start whole generalizing names with
  | case1 => simp at all
  | case2 _ _ _ _ skipped ih =>
    cases names with
    | nil => exact ⟨_, _, .here⟩
    | cons first names =>
      obtain ⟨rfl, same⟩ := List.cons.inj all
      obtain ⟨dir, left, way⟩ := ih same h
      exact ⟨dir, left, .stay skipped way⟩
  | case3 _ _ _ _ ih =>
    cases names with
    | nil => exact ⟨_, _, .here⟩
    | cons first names =>
      obtain ⟨rfl, same⟩ := List.cons.inj all
      obtain ⟨dir, left, way⟩ := ih same h
      exact ⟨dir, left, .up way⟩
  | case7 _ _ _ _ named noDots short _ found =>
    rename_i ih
    cases names with
    | nil => exact ⟨_, _, .here⟩
    | cons first names =>
      obtain ⟨rfl, same⟩ := List.cons.inj all
      obtain ⟨dir, left, way⟩ := ih same h
      exact ⟨dir, left, .down named noDots (Nat.not_lt.1 short) found way⟩
  | case10 _ _ rest named noDots short _ target found =>
    rename_i ih
    cases names with
    | nil => exact ⟨_, _, .here⟩
    | cons first names =>
      obtain ⟨rfl, same⟩ := List.cons.inj all
      have behind : Bytes.splitOn Path.slash target ++ names ++ [name] = Bytes.splitOn Path.slash target ++ rest := by
        rw [List.append_assoc, ← same]
        rfl
      obtain ⟨dir, left, way⟩ := ih behind h
      exact ⟨dir, left, .link named noDots (Nat.not_lt.1 short) found way⟩
  | case5 =>
    rename_i empty
    cases names with
    | nil => exact ⟨_, _, .here⟩
    | cons first names =>
      obtain ⟨rfl, same⟩ := List.cons.inj all
      rw [← same] at empty
      exact absurd empty (by simp [some])
  | case8 =>
    rename_i last
    cases names with
    | nil => exact ⟨_, _, .here⟩
    | cons first names =>
      obtain ⟨rfl, same⟩ := List.cons.inj all
      rw [last.1] at same
      exact absurd same (by simp)
  | case11 =>
    cases names with
    | nil => exact ⟨_, _, .here⟩
    | cons first names => simp at all
  | case4 | case6 | case9 | case12 => cases h

theorem Reaches.split {links left : Nat} {start names more dir : List Bytes}
    (h : t.Reaches links start (names ++ more) dir left) :
    ∃ mid between, t.Reaches links start names mid between ∧ t.Reaches between mid more dir left := by
  generalize all : names ++ more = whole at h
  induction h generalizing names with
  | here =>
    obtain ⟨rfl, rfl⟩ := List.append_eq_nil_iff.1 all
    exact ⟨_, _, .here, .here⟩
  | stay skipped way ih =>
    cases names with
    | nil =>
      obtain rfl : more = _ := all
      exact ⟨_, _, .here, .stay skipped way⟩
    | cons first names =>
      obtain ⟨rfl, same⟩ := List.cons.inj all
      obtain ⟨mid, between, first, second⟩ := ih same
      exact ⟨mid, between, .stay skipped first, second⟩
  | up way ih =>
    cases names with
    | nil =>
      obtain rfl : more = _ := all
      exact ⟨_, _, .here, .up way⟩
    | cons first names =>
      obtain ⟨rfl, same⟩ := List.cons.inj all
      obtain ⟨mid, between, first, second⟩ := ih same
      exact ⟨mid, between, .up first, second⟩
  | down named noDots short found way ih =>
    cases names with
    | nil =>
      obtain rfl : more = _ := all
      exact ⟨_, _, .here, .down named noDots short found way⟩
    | cons first names =>
      obtain ⟨rfl, same⟩ := List.cons.inj all
      obtain ⟨mid, between, first, second⟩ := ih same
      exact ⟨mid, between, .down named noDots short found first, second⟩
  | @link _ _ _ rest _ _ target named noDots short found way ih =>
    cases names with
    | nil =>
      obtain rfl : more = _ := all
      exact ⟨_, _, .here, .link named noDots short found way⟩
    | cons first names =>
      obtain ⟨rfl, same⟩ := List.cons.inj all
      have behind : Bytes.splitOn Path.slash target ++ names ++ more = Bytes.splitOn Path.slash target ++ rest := by
        rw [List.append_assoc, ← same]
        rfl
      obtain ⟨mid, between, first, second⟩ := ih behind
      exact ⟨mid, between, .link named noDots short found first, second⟩

theorem Reaches.of_slash {links left : Nat} {start names dir : List Bytes}
    (h : t.Reaches links start (names ++ [[]]) dir left) : t.Reaches links start names dir left := by
  obtain ⟨mid, between, first, second⟩ := h.split
  cases second with
  | stay _ rest =>
    cases rest
    exact first
  | down named => exact absurd (.inl rfl) named
  | link named => exact absurd (.inl rfl) named

theorem Reaches.unique {links left left' : Nat} {start names dir dir' : List Bytes}
    (h : t.Reaches links start names dir left) (h' : t.Reaches links start names dir' left') : dir = dir' := by
  have found := reaches_iff.2 ⟨left, h⟩
  rw [reaches_iff.2 ⟨left', h'⟩] at found
  exact (Place.found.inj (Except.ok.inj found)).1.symm

/-! ## Trees that keep ways -/

/-- Every directory and every link is still there. -/
def Keeps (t t' : FileTree) : Prop :=
  ∀ names e, t.entry? names = some e → (e = .directory ∨ ∃ target, e = .link target) → t'.entry? names = some e

theorem Reaches.mono {t' : FileTree} (keeps : t.Keeps t') {links left : Nat} {start names dir : List Bytes}
    (h : t.Reaches links start names dir left) : t'.Reaches links start names dir left := by
  induction h with
  | here => exact .here
  | stay skipped _ ih => exact .stay skipped ih
  | up _ ih => exact .up ih
  | down named noDots short found _ ih => exact .down named noDots short (keeps _ _ found (.inl rfl)) ih
  | link named noDots short found _ ih => exact .link named noDots short (keeps _ _ found (.inr ⟨_, rfl⟩)) ih

theorem entry_insert_self {names : List Bytes} (some : names ≠ []) (e : FileEntry) :
    entry? (t.insert names e) names = .some e := by
  unfold entry?
  rw [if_neg some, insert, List.lookup_append, List.lookup_eq_none_iff.2, Option.none_or, List.lookup_cons_self]
  intro entry kept
  exact bne_iff_ne.2 (bne_iff_ne.1 (List.mem_filter.1 kept).2).symm

theorem entry_insert_of_ne {names names' : List Bytes} (other : names' ≠ names) (e : FileEntry) :
    entry? (t.insert names e) names' = t.entry? names' := by
  have found (entries : List (List Bytes × FileEntry)) :
      (entries.filter (·.1 != names)).lookup names' = entries.lookup names' := by
    induction entries with
    | nil => rfl
    | cons entry entries ih =>
      by_cases here : names' = entry.1
      · rw [List.filter_cons_of_pos (by simpa [here] using other), List.lookup_cons, List.lookup_cons, ih]
      · rw [List.lookup_cons, beq_eq_false_iff_ne.2 here, List.filter_cons]
        split
        · rw [List.lookup_cons, beq_eq_false_iff_ne.2 here, ih]
        · exact ih
  unfold entry?
  rw [insert, List.lookup_append, found, List.lookup_cons, beq_eq_false_iff_ne.2 other,
    List.lookup_nil, Option.or_none]

/-- A tree in which everything stands in a directory, the directory of relative paths included. -/
structure Sound (t : FileTree) : Prop where
  parent : ∀ names name, t.entry? (names ++ [name]) ≠ none → t.entry? names = some .directory
  workDir : t.entry? (Path.elements t.workDir) = some .directory

theorem sound_of_entries (parents : ∀ x ∈ t.entries, t.entry? x.1.dropLast = some .directory)
    (workDir : t.entry? (Path.elements t.workDir) = some .directory) : t.Sound := by
  refine ⟨fun names name found => ?_, workDir⟩
  unfold entry? at found
  rw [if_neg (by simp)] at found
  obtain ⟨e, there⟩ := Option.ne_none_iff_exists'.1 found
  obtain ⟨before, after, split, -⟩ := List.lookup_eq_some_iff.1 there
  have parent := parents (names ++ [name], e) (by rw [split]; simp)
  rwa [List.dropLast_concat] at parent

theorem Reaches.directory (sound : t.Sound) {links left : Nat} {start names dir : List Bytes}
    (h : t.Reaches links start names dir left) (root : t.entry? start = some .directory) :
    t.entry? dir = some .directory := by
  induction h with
  | here => exact root
  | stay _ _ ih => exact ih root
  | @up _ _ start _ _ _ ih =>
    refine ih ?_
    rcases List.eq_nil_or_concat start with rfl | ⟨above, name, rfl⟩
    · exact root
    · rw [List.concat_eq_append] at root ⊢
      rw [List.dropLast_concat]
      exact sound.parent above name (by rw [root]; exact nofun)
  | down _ _ _ found _ ih => exact ih found
  | link _ _ _ _ _ ih =>
    refine ih ?_
    split
    · rfl
    · exact root

theorem Sound.insert (sound : t.Sound) {dir : List Bytes} {name : Bytes} {e : FileEntry}
    (inside : t.entry? dir = some .directory) (kept : t.entry? (dir ++ [name]) = some .directory → e = .directory) :
    (t.insert (dir ++ [name]) e).Sound := by
  -- a directory that was there is there still
  have directory {names : List Bytes} (before : t.entry? names = some .directory) :
      entry? (t.insert (dir ++ [name]) e) names = some .directory := by
    by_cases same : names = dir ++ [name]
    · rw [same] at before ⊢
      rw [entry_insert_self (by simp), kept before]
    · rw [entry_insert_of_ne same, before]
  refine ⟨fun names last found => ?_, directory sound.workDir⟩
  by_cases same : names ++ [last] = dir ++ [name]
  · rw [(List.append_inj' same rfl).1]
    exact directory inside
  · rw [entry_insert_of_ne same] at found
    exact directory (sound.parent names last found)

end LetStack.FileTree
