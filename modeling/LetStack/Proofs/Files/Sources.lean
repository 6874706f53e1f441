import LetStack.Files.Sources
import LetStack.Proofs.Files.Regular

/-!
The paths that `FileTree.sources` lists are different, also when cleaned (`sources_clean_injective`), and in a regular
tree each is listed once (`Regular.nodup_sources`, `Regular.sources_below`).
-/

namespace LetStack
open LetStack.Path

theorem sourcePath?_eq_some {dir path : Bytes} {names : List Bytes} {e : FileEntry}
    (h : sourcePath? dir names e = some path) : path = Path.join (dir :: names) ∧ names ≠ [] ∧ path ≠ [] := by
  unfold sourcePath? at h
  dsimp only at h
  split at h
  · next chosen =>
    cases h
    refine ⟨rfl, chosen.2.1, fun none => ?_⟩
    have ending := chosen.2.2.2
    rw [none] at ending
    exact absurd ending (by decide)
  · cases h

namespace FileTree

variable {t : FileTree} {dir : Bytes} {sources : List Bytes}

/-- The source that an entry is, if it lies below a directory and is listed. -/
def sourceBelow? (dir : Bytes) (root : List Bytes) (x : List Bytes × FileEntry) : Option Bytes :=
  if root.isPrefixOf x.1 then sourcePath? dir (x.1.drop root.length) x.2 else none

theorem sourceBelow?_eq_some {root : List Bytes} {x : List Bytes × FileEntry} {path : Bytes}
    (h : sourceBelow? dir root x = some path) :
    ∃ names, x.1 = root ++ names ∧ path = Path.join (dir :: names) ∧ names ≠ [] ∧ path ≠ [] := by
  unfold sourceBelow? at h
  split at h
  · next below =>
    obtain ⟨names, same⟩ := List.isPrefixOf_iff_prefix.1 below
    rw [← same, List.drop_left] at h
    exact ⟨names, same.symm, sourcePath?_eq_some h⟩
  · cases h

theorem sources_cases (listed : t.sources dir = .ok sources) :
    sources = [] ∨ sources = [dir] ∨ ∃ root, sources = Bytes.sort (t.entries.filterMap (sourceBelow? dir root)) := by
  unfold FileTree.sources at listed
  cases found : t.lookup "lstat" false dir with
  | error e =>
    rw [found] at listed
    cases listed
  | ok place =>
    obtain ⟨root, entry⟩ := place
    rw [found] at listed
    cases entry with
    | directory =>
      cases listed
      exact .inr (.inr ⟨root, rfl⟩)
    | file | link | void =>
      have alone : (if dir.endsWith sourceExtension then [dir] else []) = sources := Except.ok.inj listed
      split at alone
      · exact .inr (.inl alone.symm)
      · exact .inl alone.symm

theorem mem_sort {path : Bytes} {xs : List Bytes} : path ∈ Bytes.sort xs ↔ path ∈ xs :=
  (List.mergeSort_perm xs _).mem_iff

theorem sources_clean_injective (listed : t.sources dir = .ok sources) {path other : Bytes} (mem : path ∈ sources)
    (mem' : other ∈ sources) (same : clean path = clean other) : path = other := by
  rcases sources_cases listed with rfl | rfl | ⟨root, rfl⟩
  · cases mem
  · rw [List.mem_singleton.1 mem, List.mem_singleton.1 mem']
  · have cleaned {path : Bytes} (mem : path ∈ Bytes.sort (t.entries.filterMap (sourceBelow? dir root))) :
        clean path = path := by
      obtain ⟨x, -, source⟩ := List.mem_filterMap.1 (mem_sort.1 mem)
      obtain ⟨names, -, rfl, -, nonempty⟩ := sourceBelow?_eq_some source
      exact clean_join nonempty
    rwa [cleaned mem, cleaned mem'] at same

section
variable (regular : t.Regular) (listed : t.sources dir = .ok sources)
include regular listed

theorem Regular.sources_below : (∀ path ∈ sources, path = dir) ∨ ∀ path ∈ sources,
    path ≠ [] ∧ ∃ names, names ≠ [] ∧ (∀ name ∈ names, Plain name) ∧ path = Path.join (dir :: names) := by
  rcases sources_cases listed with rfl | rfl | ⟨root, rfl⟩
  · exact .inl fun path mem => absurd mem List.not_mem_nil
  · exact .inl fun path mem => List.mem_singleton.1 mem
  · refine .inr fun path mem => ?_
    obtain ⟨x, there, source⟩ := List.mem_filterMap.1 (mem_sort.1 mem)
    obtain ⟨names, below, rfl, some, nonempty⟩ := sourceBelow?_eq_some source
    refine ⟨nonempty, names, some, fun name inside => regular.plain x there name ?_, rfl⟩
    rw [below]
    exact List.mem_append_right root inside

theorem Regular.nodup_sources (target : dir ≠ []) : sources.Nodup := by
  rcases sources_cases listed with rfl | rfl | ⟨root, rfl⟩
  · exact List.nodup_nil
  · exact List.pairwise_singleton _ _
  · refine (List.mergeSort_perm _ _).nodup_iff.2 (List.pairwise_filterMap.2 ?_)
    refine (List.pairwise_map.1 regular.distinct).imp_of_mem ?_
    -- entries at different names below the directory are different sources
    intro x y memx memy different path source other source' same
    subst same
    obtain ⟨names, below, rfl, some, -⟩ := sourceBelow?_eq_some source
    obtain ⟨names', below', same, some', -⟩ := sourceBelow?_eq_some source'
    have plain : ∀ name ∈ names, Plain name := fun name inside =>
      regular.plain x memx name (below ▸ List.mem_append_right root inside)
    have plain' : ∀ name ∈ names', Plain name := fun name inside =>
      regular.plain y memy name (below' ▸ List.mem_append_right root inside)
    have elements := congrArg Path.elements same
    rw [(elements_join target some plain).1, (elements_join target some' plain').1] at elements
    rw [below, below', List.append_cancel_left elements] at different
    exact different rfl

end

end FileTree

end LetStack
