import LetStack.Compile.Stored
import LetStack.Proofs.Files.Directories
import LetStack.Proofs.Text.Bytes

/-!
`CacheHolds` says that whatever stands at the path of an entry was kept for its key. Reading finds such a file
(`CacheHolds.read`), and `putEntry` keeps it so (`CacheHolds.put`).
-/

namespace LetStack
open FileTree LetStack.Path

variable {t t' : FileTree} {dir : Bytes} {key : Digest}

/-! ## Paths of entries -/

/-- The name of the file of an entry. -/
def entryName (key : Digest) : Bytes := Bytes.toHex key ++ ".mp"

theorem entryName_injective {key key' : Digest} (h : entryName key = entryName key') : key = key' :=
  Bytes.toHex_injective (List.append_cancel_right h)

theorem slash_notMem_toHex (x : Bytes) : slash ∉ Bytes.toHex x := by
  have other : ∀ n < 16, slash ≠ Bytes.hexDigit n := by decide
  intro mem
  obtain ⟨b, -, digit⟩ := List.mem_flatMap.1 mem
  rcases List.mem_cons.1 digit with high | low
  · exact other _ (Nat.div_lt_of_lt_mul b.toNat_lt) high
  · exact other _ (Nat.mod_lt _ (by decide)) (List.mem_singleton.1 low)

theorem entryName_plain (key : Digest) : Plain (entryName key) := by
  have long : 3 ≤ (entryName key).length := by
    rw [entryName, List.length_append]
    exact Nat.le_add_left 3 _
  refine ⟨?_, ?_, ?_, fun mem => ?_⟩
  · intro same
    exact absurd (same ▸ long) (by decide)
  · intro same
    exact absurd (same ▸ long) (by decide)
  · intro same
    exact absurd (same ▸ long) (by decide)
  · rcases List.mem_append.1 mem with digit | ending
    · exact slash_notMem_toHex key digit
    · exact absurd ending (by decide)

/-- The elements of the directory that entries stand in. -/
def unitsOf (dir : Bytes) : List Bytes := elements dir ++ [Bytes.ofString "units"]

theorem units_normal (dir : Bytes) : Normal (isAbsolute dir) (unitsOf dir) :=
  .name (elements_normal dir) (by constructor <;> decide)

theorem entryPath_eq (dir : Bytes) (key : Digest) :
    entryPath dir key = ofElements (isAbsolute dir) (unitsOf dir ++ [entryName key]) := by
  have joined := join_plain (a := "units") (by constructor <;> decide) (entryName_plain key) dir
  rw [unitsOf, List.append_assoc]
  exact joined

theorem entryPath_dir (dir : Bytes) (key : Digest) :
    Path.dir (entryPath dir key) = ofElements (isAbsolute dir) (unitsOf dir) := by
  rw [entryPath_eq, dir_ofElements (units_normal dir) (by simp [unitsOf]) (entryName_plain key)]

theorem exists_reaches_units {follow : Bool} {place : Place} (ok : t.place follow (entryPath dir key) = .ok place) :
    ∃ names left, t.Reaches maxLinks (t.origin (isAbsolute dir)) (unitsOf dir) names left := by
  rw [entryPath_eq] at ok
  rw [place_ofElements (.name (units_normal dir) (entryName_plain key)) (by simp) ok] at ok
  exact exists_reaches_before (entryName_plain key).nonempty ok

theorem place_entryPath {follow : Bool} {place : Place} (ok : t.place follow (entryPath dir key) = .ok place)
    {names : List Bytes} {left : Nat}
    (way : t'.Reaches maxLinks (t'.origin (isAbsolute dir)) (unitsOf dir) names left) (follow' : Bool) :
    t'.place follow' (entryPath dir key) = t'.walk follow' left names [entryName key] := by
  rw [entryPath_eq] at ok ⊢
  rw [place_ofElements (.name (units_normal dir) (entryName_plain key)) (by simp) ok,
    way.walk_append follow' (.inr (by simp))]

theorem entry_of_place {names : List Bytes} {e : FileEntry}
    (found : t.place false (entryPath dir key) = .ok (.found names e)) :
    ∃ units left, t.Reaches maxLinks (t.origin (isAbsolute dir)) (unitsOf dir) units left ∧
      names = units ++ [entryName key] ∧ t.entry? names = some e := by
  have plain := entryName_plain key
  obtain ⟨units, left, way⟩ := exists_reaches_units found
  rw [place_entryPath found way] at found
  exact ⟨units, left, way, walk_found plain.not_skipped plain.noDots found⟩

/-! ## What a cache holds -/

/-- At the path of an entry there is nothing, or a file that was kept for its key. -/
structure CacheHolds (t : FileTree) (dir : Bytes) (kept : Digest → Bytes → Prop) : Prop where
  sound : t.Sound
  entries : ∀ key names e, t.place false (entryPath dir key) = .ok (.found names e) →
    ∃ content, e = .file content ∧ kept key content

variable {kept : Digest → Bytes → Prop}

theorem CacheHolds.read (holds : CacheHolds t dir kept) {content : Bytes}
    (ok : t.read (entryPath dir key) = .ok content) : kept key content := by
  have plain := entryName_plain key
  -- a link would be an entry, and no entry is one
  have followed {names : List Bytes} {e : FileEntry} (found : t.place true (entryPath dir key) = .ok (.found names e)) :
      ∃ content, e = .file content ∧ kept key content := by
    obtain ⟨units, left, way⟩ := exists_reaches_units found
    have walked := place_entryPath found way
    rw [walked] at found
    rcases walk_followed plain.not_skipped plain.noDots found with same | ⟨target, link⟩
    · exact holds.entries key names e (walked false ▸ same)
    · obtain ⟨_, isFile, -⟩ := holds.entries key _ _ (walked false ▸ link)
      cases isFile
  unfold FileTree.read lookup at ok
  cases found : t.place true (entryPath dir key) with
  | error cause =>
    rw [found] at ok
    cases ok
  | ok place =>
    rw [found] at ok
    cases place with
    | free names slashed => cases ok
    | found names e =>
      obtain ⟨content, rfl, this⟩ := followed found
      cases ok
      exact this

theorem CacheHolds.made (holds : CacheHolds t dir kept) (made : Made t t' (isAbsolute dir) (unitsOf dir)) :
    CacheHolds t' dir kept := by
  rcases made.empty with rfl | ⟨-, empty⟩
  · exact holds
  refine ⟨made.sound, fun key names e found => ?_⟩
  obtain ⟨units, left, way, rfl, there⟩ := entry_of_place found
  rw [empty units left way] at there
  cases there

theorem CacheHolds.replace (holds : CacheHolds t dir kept) {content : Bytes} (this : kept key content)
    (ok : t.replace (entryPath dir key) (.file content) = .ok t') : CacheHolds t' dir kept := by
  have plain := entryName_plain key
  obtain ⟨units, left, way, noWay, rfl⟩ : ∃ units left,
      t.Reaches maxLinks (t.origin (isAbsolute dir)) (unitsOf dir) units left ∧
      (∀ e, t.entry? (units ++ [entryName key]) = some e → ∃ content, e = .file content) ∧
      t' = t.insert (units ++ [entryName key]) (.file content) := by
    unfold FileTree.replace at ok
    split at ok
    · cases ok
    · next names e _ found =>
      obtain ⟨units, left, way, rfl, there⟩ := entry_of_place found
      refine ⟨units, left, way, fun e' there' => ?_, (Except.ok.inj ok).symm⟩
      rw [there] at there'
      obtain ⟨content, isFile, -⟩ := holds.entries key _ e found
      exact ⟨content, Option.some.inj there' ▸ isFile⟩
    · next names slashed free =>
      obtain ⟨units, left, way⟩ := exists_reaches_units free
      rw [place_entryPath free way] at free
      obtain ⟨rfl, missing⟩ := walk_free plain.not_skipped plain.noDots free
      refine ⟨units, left, way, fun e there => ?_, (Except.ok.inj ok).symm⟩
      rw [missing] at there
      cases there
    · cases ok
  refine ⟨holds.sound.insert (way.directory holds.sound (holds.sound.origin _)) fun directory => ?_,
    fun key' names e found => ?_⟩
  · obtain ⟨_, isFile⟩ := noWay _ directory
    cases isFile
  -- the directory of the entries is the same one as before
  obtain ⟨units', left', way', rfl, there⟩ := entry_of_place found
  have keeps : (t.insert (units ++ [entryName key]) (.file content)).Keeps t := by
    intro names e there isWay
    rwa [entry_insert_of_ne] at there
    rintro rfl
    rw [entry_insert_self (by simp)] at there
    cases Option.some.inj there
    rcases isWay with same | ⟨_, same⟩ <;> cases same
  have before := way'.mono keeps
  obtain rfl : units' = units := before.unique way
  by_cases same : key' = key
  · subst same
    rw [entry_insert_self (by simp)] at there
    exact ⟨content, (Option.some.inj there).symm, this⟩
  · have other : units' ++ [entryName key'] ≠ units' ++ [entryName key] := by
      intro equal
      exact same (entryName_injective (List.cons.inj (List.append_cancel_left equal)).1)
    have plain' := entryName_plain key'
    refine holds.entries key' (units' ++ [entryName key']) e ?_
    rw [place_entryPath found before, walk_unfollowed plain'.not_skipped plain'.noDots]
    rw [place_entryPath found way', walk_unfollowed plain'.not_skipped plain'.noDots, entry_insert_of_ne other] at found
    exact found

theorem CacheHolds.put (holds : CacheHolds t dir kept) {e : CacheEntry} (this : kept key e.pack)
    (ok : t.putEntry dir key e = .ok t') : CacheHolds t' dir kept := by
  unfold putEntry at ok
  dsimp only at ok
  rw [entryPath_dir] at ok
  cases made : t.makeDirectories (ofElements (isAbsolute dir) (unitsOf dir)) with
  | error reason =>
    rw [made] at ok
    cases ok
  | ok t₁ =>
    rw [made] at ok
    have there := makeDirectories_made holds.sound (units_normal dir) (by simp [unitsOf]) made
    exact (holds.made there).replace this ok

end LetStack
