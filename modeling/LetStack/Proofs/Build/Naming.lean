import LetStack.Build.Basic
import LetStack.Proofs.Files.Sources

/-!
Files with one `displayName` are one file (`displayName_injective`), and none is empty (`displayName_ne_nil`), so the
sources of a target have display names of their own (`Regular.nodup_displayNames`).
-/

namespace LetStack

namespace Path

theorem withoutCommon_eq {xs ys up down : List Bytes} (h : withoutCommon xs ys = (up, down)) :
    ∃ common, xs = common ++ up ∧ ys = common ++ down := by
  fun_induction withoutCommon xs ys with
  | case1 xs x ys ih =>
    obtain ⟨common, rfl, rfl⟩ := ih h
    exact ⟨x :: common, rfl, rfl⟩
  | case2 x xs y ys different =>
    cases h
    exact ⟨[], rfl, rfl⟩
  | case3 xs ys =>
    cases h
    exact ⟨[], rfl, rfl⟩

theorem startsWith_join (sep x : Bytes) (xs : List Bytes) : (Bytes.join sep (x :: xs)).startsWith x = true := by
  refine List.isPrefixOf_iff_prefix.2 ?_
  cases xs with
  | nil => exact List.prefix_rfl
  | cons y xs => exact ⟨sep ++ Bytes.join sep (y :: xs), (List.append_assoc x sep _).symm⟩

theorem relative_down {source target : Bytes} (down : (relative source target).startsWith ".." = false) :
    ∃ names, elements target = elements source ++ names ∧ relative source target = ofElements false names := by
  unfold relative at down ⊢
  cases split : withoutCommon (elements source) (elements target) with
  | mk up names =>
    obtain ⟨common, first, second⟩ := withoutCommon_eq split
    rw [split] at down
    dsimp only at down ⊢
    cases up with
    | cons step up =>
      rw [List.map_cons, List.cons_append, ofElements, if_neg Bool.false_ne_true, if_neg (List.cons_ne_nil _ _),
        startsWith_join] at down
      cases down
    | nil =>
      rw [List.append_nil] at first
      exact ⟨names, first ▸ second, rfl⟩

theorem relative_below {source target : Bytes} (inside : relative source target ≠ ".")
    (down : (relative source target).startsWith ".." = false) :
    elements target = elements source ++ elements (relative source target) ∧
      elements (relative source target) ≠ [] ∧ isAbsolute (relative source target) = false := by
  obtain ⟨names, split, same⟩ := relative_down down
  have normal : Normal false names := (split ▸ elements_normal target).behind
  have nonempty : names ≠ [] := by
    rintro rfl
    exact inside same
  rw [same, elements_ofElements normal nonempty]
  exact ⟨split, nonempty, isAbsolute_ofElements normal nonempty⟩

end Path

open LetStack.Path

/-! ## One file, one name -/

theorem displayName_cases {workDir base : Bytes} (based : Utf8.trim base ≠ []) (file : Bytes) :
    displayName workDir file base = absolute workDir (clean file) ∨
      elements (absolute workDir (clean file)) =
          elements (absolute workDir (Utf8.trim base)) ++ elements (displayName workDir file base) ∧
        elements (displayName workDir file base) ≠ [] ∧ isAbsolute (displayName workDir file base) = false := by
  unfold displayName
  dsimp only
  rw [if_neg based]
  split
  · next below => exact .inr (relative_below below.1 (by simpa using below.2))
  · exact .inl rfl

section
variable {workDir base : Bytes} (rooted : isAbsolute workDir = true)
include rooted

theorem displayName_injective {file other : Bytes}
    (same : displayName workDir file base = displayName workDir other base) :
    absolute workDir (clean file) = absolute workDir (clean other) := by
  by_cases based : Utf8.trim base = []
  · unfold displayName at same
    rw [if_pos based, if_pos based] at same
    rw [same]
  · have apart {p : Bytes} : isAbsolute (absolute workDir p) ≠ false := by
      rw [isAbsolute_absolute rooted]
      decide
    rcases displayName_cases based file with own | ⟨below, -, relative⟩ <;>
      rcases displayName_cases based other with own' | ⟨below', -, relative'⟩
    · rw [← own, same, own']
    · rw [← same, own] at relative'
      exact absurd relative' apart
    · rw [same, own'] at relative
      exact absurd relative apart
    · rw [absolute_eq rooted (clean file), below, same, ← below', ← absolute_eq rooted (clean other)]

theorem displayName_ne_nil (file : Bytes) : displayName workDir file base ≠ [] := by
  by_cases based : Utf8.trim base = []
  · unfold displayName
    rw [if_pos based]
    exact clean_ne_nil file
  · rcases displayName_cases based file with own | ⟨-, nonempty, -⟩
    · rw [own]
      exact ne_nil_of_isAbsolute (isAbsolute_absolute rooted _)
    · intro none
      rw [none] at nonempty
      exact nonempty rfl

/-- Seen from the root, files below a directory are told apart by their names below it. -/
theorem elements_absolute_join {dir : Bytes} (some : dir ≠ []) : ∃ front, ∀ names, names ≠ [] →
    (∀ name ∈ names, Plain name) → elements (absolute workDir (clean (join (dir :: names)))) = front ++ names := by
  cases own : isAbsolute dir with
  | true =>
    refine ⟨elements dir, fun names below plain => ?_⟩
    obtain ⟨split, absolute⟩ := elements_join some below plain
    rw [Path.absolute, if_pos (by rw [isAbsolute_clean, absolute, own]), elements_clean, elements_clean, split]
  | false =>
    refine ⟨(elements dir).foldl (push true) (elements workDir), fun names below plain => ?_⟩
    obtain ⟨split, relative⟩ := elements_join some below plain
    have nonempty : elements dir ++ names ≠ [] := fun none => below (List.append_eq_nil_iff.1 none).2
    rw [absolute_relative rooted (by rw [isAbsolute_clean, relative, own]), elements_clean,
      elements_append (ne_nil_of_isAbsolute rooted), rooted, clean, relative, own, split,
      splitOn_ofElements (own ▸ (elements_normal dir).append plain) nonempty, if_neg Bool.false_ne_true,
      List.foldl_append, foldl_push_plain plain]

end

/-! ## Sources of a target -/

namespace FileTree

variable {t : FileTree} {target : Bytes} {sources : List Bytes} {isDir : Bool}

theorem targetSources_cases (h : t.targetSources target = .ok (sources, isDir)) :
    target ≠ [] ∧ (isDir = false ∧ sources = [target] ∨ isDir = true ∧ t.sources target = .ok sources) := by
  unfold targetSources at h
  simp only [bind, Except.bind, pure, Except.pure, throw, throwThe, MonadExceptOf.throw] at h
  split at h
  · cases h
  · next some =>
    split at h
    · cases h
    · split at h
      · cases h
      · cases h
      · next listed =>
        cases h
        exact ⟨some, .inr ⟨rfl, listed⟩⟩
    · cases h
      exact ⟨some, .inl ⟨rfl, rfl⟩⟩

theorem targetSources_clean_injective (h : t.targetSources target = .ok (sources, isDir)) {path other : Bytes}
    (mem : path ∈ sources) (mem' : other ∈ sources) (same : clean path = clean other) : path = other := by
  rcases (targetSources_cases h).2 with ⟨-, rfl⟩ | ⟨-, listed⟩
  · rw [List.mem_singleton.1 mem, List.mem_singleton.1 mem']
  · exact sources_clean_injective listed mem mem' same

section
variable (regular : t.Regular) (h : t.targetSources target = .ok (sources, isDir))
include regular h

theorem Regular.nodup_targetSources : sources.Nodup ∧ ∀ path ∈ sources, path ≠ [] := by
  obtain ⟨some, ⟨-, rfl⟩ | ⟨-, listed⟩⟩ := targetSources_cases h
  · exact ⟨List.pairwise_singleton _ _, fun path mem => List.mem_singleton.1 mem ▸ some⟩
  · refine ⟨regular.nodup_sources listed some, fun path mem => ?_⟩
    rcases regular.sources_below listed with own | below
    · rwa [own path mem]
    · exact (below path mem).1

/-- The sources of a target go by names of their own. -/
theorem Regular.nodup_displayNames (base : Bytes) :
    displayNames t.workDir base sources = sources.map (displayName t.workDir · base) ∧
      (displayNames t.workDir base sources).Nodup := by
  obtain ⟨distinct, nonempty⟩ := regular.nodup_targetSources h
  have all : displayNames t.workDir base sources = sources.map (displayName t.workDir · base) := by
    unfold displayNames
    rw [List.filter_eq_self.2 fun path mem => decide_eq_true (nonempty path mem)]
  refine ⟨all, ?_⟩
  rw [all]
  refine List.pairwise_map.2 (distinct.imp_of_mem fun {path other} mem mem' different same => different ?_)
  have root := displayName_injective regular.rooted same
  obtain ⟨some, ⟨-, rfl⟩ | ⟨-, listed⟩⟩ := targetSources_cases h
  · rw [List.mem_singleton.1 mem, List.mem_singleton.1 mem']
  · rcases regular.sources_below listed with own | below
    · rw [own path mem, own other mem']
    · obtain ⟨-, names, nonempty, plain, rfl⟩ := below path mem
      obtain ⟨-, names', nonempty', plain', rfl⟩ := below other mem'
      obtain ⟨front, split⟩ := elements_absolute_join regular.rooted some
      have elements := congrArg Path.elements root
      rw [split names nonempty plain, split names' nonempty' plain'] at elements
      rw [List.append_cancel_left elements]

end

end FileTree

end LetStack
