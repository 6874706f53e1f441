import LetStack.Proofs.Build.Artifacts
import LetStack.Proofs.Build.Naming
import LetStack.Proofs.Text.Bytes

/-!
Artifacts stay below the output directory. `artifactName` takes `../` out of the text of a display name, which joins
a directory that ends with two dots to the next name (`replace_join`) and makes no name a step up
(`exists_names_spliced`). So the name of an artifact is made of plain names (`exists_names_artifactName`).
-/

namespace LetStack
open LetStack.Path

/-! ## Taking steps up out of a text -/

/-- What is left of the name of a directory and the slash behind it. -/
def dirLeft (dir : Bytes) : Bytes := if dir.endsWith ".." then dir.dropSuffix ".." else dir ++ [slash]

/-- The text of a path without `../`. -/
def spliced (dirs : List Bytes) (file : Bytes) : Bytes := dirs.flatMap dirLeft ++ file

theorem dirLeft_cons {b : UInt8} {dir : Bytes} (other : b :: dir ≠ "..") : dirLeft (b :: dir) = b :: dirLeft dir := by
  have ends : Bytes.endsWith (b :: dir) ".." = dir.endsWith ".." := by
    rw [Bool.eq_iff_iff, Bytes.endsWith_iff, Bytes.endsWith_iff, List.suffix_cons_iff, or_iff_right other.symm]
  unfold dirLeft
  rw [ends]
  split
  · next h =>
    obtain ⟨rest, rfl⟩ := Bytes.endsWith_iff.1 h
    rw [← List.cons_append, Bytes.dropSuffix_append, Bytes.dropSuffix_append]
  · rfl

theorem upward_iff {dir : Bytes} (plain : slash ∉ dir) (rest : Bytes) :
    (Bytes.ofString "../").isPrefixOf (dir ++ slash :: rest) = true ↔ dir = ".." := by
  have upward : Bytes.ofString "../" = Bytes.ofString ".." ++ [slash] := by decide
  rw [List.isPrefixOf_iff_prefix, upward]
  constructor
  · rintro ⟨behind, same⟩
    rw [List.append_assoc, List.singleton_append] at same
    have pieces := congrArg (Bytes.splitOn slash) same
    rw [Bytes.splitOn_append, Bytes.splitOn_append, Bytes.splitOn_single plain,
      Bytes.splitOn_single (by decide : slash ∉ Bytes.ofString "..")] at pieces
    exact (List.cons.inj pieces).1.symm
  · rintro rfl
    exact ⟨rest, by rw [List.append_assoc]; rfl⟩

theorem replace_dir {dir : Bytes} (plain : slash ∉ dir) (rest : Bytes) :
    Bytes.replace "../" [] (dir ++ slash :: rest) = dirLeft dir ++ Bytes.replace "../" [] rest := by
  induction dir with
  | nil =>
    have other : ¬(Bytes.ofString "../").isPrefixOf ([] ++ slash :: rest) := fun up =>
      absurd ((upward_iff plain rest).1 up) (by decide)
    rw [List.nil_append, Bytes.replace, dif_neg fun hit => other hit.2]
    rfl
  | cons b dir ih =>
    have up := upward_iff plain rest
    rw [List.cons_append] at up
    rw [List.cons_append, Bytes.replace]
    by_cases dots : b :: dir = ".."
    · have gone : (b :: (dir ++ slash :: rest)).drop (Bytes.ofString "../").length = rest := by
        rw [← List.cons_append, dots]
        rfl
      have none : dirLeft (b :: dir) = [] := by
        rw [dots]
        decide
      rw [dif_pos ⟨by decide, up.2 dots⟩, gone, none]
    · rw [dif_neg fun hit => dots (up.1 hit.2), ih fun mem => plain (List.mem_cons_of_mem b mem), dirLeft_cons dots]
      rfl

theorem replace_file {file : Bytes} (plain : slash ∉ file) : Bytes.replace "../" [] file = file := by
  induction file with
  | nil => rw [Bytes.replace]
  | cons b file ih =>
    have other : ¬(Bytes.ofString "../").isPrefixOf (b :: file) := fun up =>
      plain ((List.isPrefixOf_iff_prefix.1 up).mem (by decide))
    rw [Bytes.replace, dif_neg fun hit => other hit.2, ih fun mem => plain (List.mem_cons_of_mem b mem)]

theorem join_dirs (dirs : List Bytes) (file : Bytes) :
    Bytes.join "/" (dirs ++ [file]) = dirs.flatMap (· ++ [slash]) ++ file := by
  induction dirs with
  | nil => rfl
  | cons dir dirs ih =>
    have step : Bytes.join "/" (dir :: dirs ++ [file]) = dir ++ [slash] ++ Bytes.join "/" (dirs ++ [file]) := by
      cases dirs <;> rfl
    rw [step, ih, List.flatMap_cons, ← List.append_assoc]

/-- Of the text of a path all is left but two dots and a slash behind each directory that ends so. -/
theorem replace_join {dirs : List Bytes} {file : Bytes} (plain : ∀ dir ∈ dirs, slash ∉ dir) (last : slash ∉ file) :
    Bytes.replace "../" [] (Bytes.join "/" (dirs ++ [file])) = spliced dirs file := by
  rw [join_dirs]
  induction dirs with
  | nil => exact replace_file last
  | cons dir dirs ih =>
    have rest := ih fun other mem => plain other (List.mem_cons_of_mem dir mem)
    rw [List.flatMap_cons, List.append_assoc, List.append_assoc, List.singleton_append,
      replace_dir (plain dir List.mem_cons_self), rest, spliced, spliced, List.flatMap_cons, List.append_assoc]

/-! ## Names that run together -/

/-- What ends with a name that is no dot and has no two dots at its end has none either. -/
theorem endsWith_dots_append {dir : Bytes} (nonempty : dir ≠ []) (noDot : dir ≠ ".")
    (other : dir.endsWith ".." = false) (front : Bytes) : (front ++ dir).endsWith ".." = false := by
  rw [Bool.eq_false_iff, ne_eq, Bytes.endsWith_iff] at other ⊢
  intro ends
  rcases Nat.lt_or_ge dir.length 2 with short | long
  · obtain ⟨b, rfl⟩ := List.length_eq_one_iff.1
      (Nat.le_antisymm (Nat.le_of_lt_succ short) (List.length_pos_iff.2 nonempty))
    obtain ⟨rest, same⟩ := ends
    have split : rest ++ Bytes.ofString ".." = rest ++ Bytes.ofString "." ++ Bytes.ofString "." := by
      rw [List.append_assoc]
      rfl
    exact noDot (List.append_inj' (split.symm.trans same) rfl).2.symm
  · exact other (List.suffix_of_suffix_length_le ends (List.suffix_append front dir) long)

/-- A directory on a clean path, or a step up. -/
structure PathPiece (piece : Bytes) : Prop where
  nonempty : piece ≠ []
  noDot : piece ≠ "."
  noSlash : slash ∉ piece

theorem Path.Plain.pathPiece {name : Bytes} (h : Plain name) : PathPiece name := ⟨h.nonempty, h.noDot, h.noSlash⟩

theorem PathPiece.plain_append {dir front : Bytes} (h : PathPiece dir) (other : dir.endsWith ".." = false)
    (noSlash : slash ∉ front) : Plain (front ++ dir) where
  nonempty := fun none => h.nonempty (List.append_eq_nil_iff.1 none).2
  noDot := by
    intro dot
    have length := congrArg List.length dot
    rw [List.length_append] at length
    have empty : front = [] := by
      have positive := List.length_pos_iff.2 h.nonempty
      have one : (Bytes.ofString ".").length = 1 := rfl
      exact List.length_eq_zero_iff.1 (by omega)
    rw [empty] at dot
    exact h.noDot dot
  noDots := by
    intro dots
    have open_ := endsWith_dots_append h.nonempty h.noDot other front
    rw [dots] at open_
    exact absurd open_ (by decide)
  noSlash := fun mem => (List.mem_append.1 mem).elim noSlash h.noSlash

theorem exists_names_spliced {dirs : List Bytes} (pieces : ∀ dir ∈ dirs, PathPiece dir) {front : Bytes}
    (noSlash : slash ∉ front) (file : Bytes) :
    ∃ dirs' front', (∀ dir ∈ dirs', Plain dir ∧ dir.endsWith ".." = false) ∧ slash ∉ front' ∧
      front ++ spliced dirs file = Bytes.join "/" (dirs' ++ [front' ++ file]) := by
  induction dirs generalizing front with
  | nil => exact ⟨[], front, fun dir mem => absurd mem List.not_mem_nil, noSlash, rfl⟩
  | cons dir dirs ih =>
    have piece := pieces dir List.mem_cons_self
    have later : ∀ other ∈ dirs, PathPiece other := fun other mem => pieces other (List.mem_cons_of_mem dir mem)
    cases ends : dir.endsWith ".." with
    | true =>
      -- the rest of the name stands in front of what follows
      have rest : slash ∉ front ++ dir.dropSuffix ".." := by
        intro mem
        rcases List.mem_append.1 mem with before | inside
        · exact noSlash before
        · exact piece.noSlash ((Bytes.dropSuffix_isPrefix _ _).mem inside)
      obtain ⟨dirs', front', plain, noSlash', joined⟩ := ih later rest
      refine ⟨dirs', front', plain, noSlash', ?_⟩
      rw [← joined, spliced, spliced, List.flatMap_cons, dirLeft, if_pos ends, List.append_assoc, List.append_assoc]
    | false =>
      obtain ⟨dirs', front', plain, noSlash', joined⟩ := ih later List.not_mem_nil
      refine ⟨(front ++ dir) :: dirs', front', fun other mem => ?_, noSlash', ?_⟩
      · rcases List.mem_cons.1 mem with rfl | behind
        · exact ⟨piece.plain_append ends noSlash, endsWith_dots_append piece.nonempty piece.noDot ends front⟩
        · exact plain other behind
      · rw [List.nil_append, join_dirs] at joined
        rw [join_dirs, List.flatMap_cons, List.append_assoc, ← joined, spliced, spliced, List.flatMap_cons, dirLeft,
          if_neg (Bool.eq_false_iff.1 ends)]
        simp only [List.append_assoc]

/-! ## Names of artifacts -/

theorem Path.Normal.pathPiece {rooted : Bool} {es : List Bytes} (h : Normal rooted es) : ∀ e ∈ es, PathPiece e := by
  intro e mem
  obtain ⟨nonempty, noSlash⟩ := h.each e mem
  refine ⟨nonempty, fun dot => ?_, noSlash⟩
  induction h with
  | nil => exact absurd mem List.not_mem_nil
  | up _ _ _ ih =>
    rcases List.mem_append.1 mem with before | here
    · exact ih before
    · exact absurd (dot.symm.trans (List.mem_singleton.1 here)) (by decide)
  | name _ plain ih =>
    rcases List.mem_append.1 mem with before | here
    · exact ih before
    · exact plain.noDot ((List.mem_singleton.1 here).symm.trans dot)

/-- The text of a path in front of the name of its file. -/
def pathFront (rooted : Bool) (dirs : List Bytes) : Bytes :=
  (if rooted then [slash] else []) ++ dirs.flatMap (· ++ [slash])

theorem ofElements_dirs (rooted : Bool) (dirs : List Bytes) (file : Bytes) :
    ofElements rooted (dirs ++ [file]) = pathFront rooted dirs ++ file := by
  unfold ofElements pathFront
  rw [join_dirs, if_neg (List.concat_ne_nil file dirs), List.append_assoc]
  cases rooted <;> rfl

theorem pathFront_cases (rooted : Bool) (dirs : List Bytes) :
    pathFront rooted dirs = [] ∨ ∃ front, pathFront rooted dirs = front ++ [slash] := by
  unfold pathFront
  rcases List.eq_nil_or_concat dirs with rfl | ⟨before, dir, rfl⟩
  · cases rooted
    · exact .inl rfl
    · exact .inr ⟨[], rfl⟩
  · refine .inr ⟨(if rooted then [slash] else []) ++ before.flatMap (· ++ [slash]) ++ dir, ?_⟩
    simp [List.append_assoc]

theorem dropSuffix_ofElements {tail : Bytes} (plain : slash ∉ tail) (rooted : Bool) (dirs : List Bytes) (file : Bytes) :
    (ofElements rooted (dirs ++ [file])).dropSuffix tail = ofElements rooted (dirs ++ [file.dropSuffix tail]) := by
  rw [ofElements_dirs, ofElements_dirs]
  rcases pathFront_cases rooted dirs with none | ⟨front, split⟩
  · rw [none]
    rfl
  · rw [split, List.append_assoc, List.append_assoc]
    exact Bytes.dropSuffix_behind plain front file

theorem dropWhile_slash_eq {x : Bytes} (h : x.head? ≠ some slash) : x.dropWhile (· = slash) = x := by
  cases x with
  | nil => rfl
  | cons b x =>
    refine List.dropWhile_cons_of_neg ?_
    simpa using h

theorem head?_spliced {dirs : List Bytes} (pieces : ∀ dir ∈ dirs, PathPiece dir) {file : Bytes} (last : slash ∉ file) :
    (spliced dirs file).head? ≠ some slash := by
  obtain ⟨dirs', front, plain, noSlash, joined⟩ := exists_names_spliced pieces (List.not_mem_nil : slash ∉ []) file
  rw [List.nil_append] at joined
  rw [joined, join_dirs]
  intro first
  cases dirs' with
  | nil =>
    have mem : slash ∈ front ++ file := List.mem_of_head? first
    exact (List.mem_append.1 mem).elim noSlash last
  | cons dir dirs' =>
    obtain ⟨own, -⟩ := plain dir List.mem_cons_self
    obtain ⟨b, rest, rfl⟩ := List.exists_cons_of_ne_nil own.nonempty
    cases first
    exact own.noSlash List.mem_cons_self

theorem artifactName_ofElements {rooted : Bool} {dirs : List Bytes} {file : Bytes}
    (pieces : ∀ dir ∈ dirs, PathPiece dir) (last : slash ∉ file) (extension : Bytes) :
    artifactName (ofElements rooted (dirs ++ [file])) extension =
      spliced dirs (file.dropSuffix sourceExtension ++ extension) := by
  have stem : slash ∉ file.dropSuffix sourceExtension := fun mem => last ((Bytes.dropSuffix_isPrefix _ _).mem mem)
  have gone := replace_join (fun dir mem => (pieces dir mem).noSlash) stem
  have first := dropWhile_slash_eq (head?_spliced pieces stem)
  have noSlash : slash ∉ sourceExtension := by decide
  have whole : (Bytes.replace "../" [] (ofElements rooted (dirs ++ [file.dropSuffix sourceExtension]))).dropWhile
      (· = slash) = spliced dirs (file.dropSuffix sourceExtension) := by
    cases rooted with
    | true =>
      have up := replace_dir (List.not_mem_nil : slash ∉ [])
        (Bytes.join "/" (dirs ++ [file.dropSuffix sourceExtension]))
      rw [List.nil_append] at up
      show (Bytes.replace "../" [] (slash :: Bytes.join "/" (dirs ++ [file.dropSuffix sourceExtension]))).dropWhile _ =
        _
      rw [up, gone, show dirLeft [] = [slash] from by decide, List.singleton_append,
        List.dropWhile_cons_of_pos (by decide), first]
    | false =>
      rw [ofElements, if_neg Bool.false_ne_true, if_neg (List.concat_ne_nil _ dirs), gone, first]
  rw [artifactName, dropSuffix_ofElements noSlash, whole, spliced, spliced, List.append_assoc]

theorem plain_extension {x : Bytes} (noSlash : slash ∉ x) {format : EmitFormat} (written : format ≠ .none) :
    Plain (x ++ format.extension) := by
  have long : 2 < (x ++ format.extension).length := by
    have own : 2 < format.extension.length := by
      cases format with
      | none => exact absurd rfl written
      | listing | packed => decide
    rw [List.length_append]
    omega
  have other : slash ∉ format.extension := by cases format <;> decide
  have apart {y : Bytes} (short : y.length ≤ 2) : x ++ format.extension ≠ y := fun same =>
    absurd (same ▸ long) (Nat.not_lt.2 short)
  exact ⟨apart (by decide), apart (by decide), apart (by decide), fun mem => (List.mem_append.1 mem).elim noSlash other⟩

/-- A clean path, as it is written from its elements. -/
def IsClean (path : Bytes) : Prop := ∃ rooted es, Normal rooted es ∧ path = ofElements rooted es

theorem IsClean.dirs {path : Bytes} (h : IsClean path) :
    ∃ rooted dirs file, (∀ dir ∈ dirs, PathPiece dir) ∧ slash ∉ file ∧ path = ofElements rooted (dirs ++ [file]) := by
  obtain ⟨rooted, es, normal, rfl⟩ := h
  rcases List.eq_nil_or_concat es with rfl | ⟨dirs, file, rfl⟩
  · cases rooted with
    | true => exact ⟨true, [], [], fun dir mem => absurd mem List.not_mem_nil, List.not_mem_nil, rfl⟩
    | false => exact ⟨false, [], ".", fun dir mem => absurd mem List.not_mem_nil, by decide, rfl⟩
  · rw [List.concat_eq_append] at normal ⊢
    have pieces := normal.pathPiece
    exact ⟨rooted, dirs, file, fun dir mem => pieces dir (List.mem_append_left _ mem),
      (pieces file (List.mem_append_right _ List.mem_cons_self)).noSlash, rfl⟩

theorem exists_names_artifactName {display : Bytes} (h : IsClean display) {format : EmitFormat}
    (written : format ≠ .none) : ∃ names, names ≠ [] ∧ (∀ name ∈ names, Plain name) ∧
      artifactName display format.extension = Bytes.join "/" names := by
  obtain ⟨rooted, dirs, file, pieces, last, rfl⟩ := h.dirs
  obtain ⟨dirs', front, plain, noSlash, joined⟩ := exists_names_spliced pieces (List.not_mem_nil : slash ∉ [])
    (file.dropSuffix sourceExtension ++ format.extension)
  rw [List.nil_append, ← List.append_assoc] at joined
  refine ⟨_, List.concat_ne_nil _ _, fun name mem => ?_, (artifactName_ofElements pieces last _).trans joined⟩
  rcases List.mem_append.1 mem with before | here
  · exact (plain name before).1
  · rw [List.mem_singleton.1 here]
    refine plain_extension (fun mem => ?_) written
    rcases List.mem_append.1 mem with before | inside
    · exact noSlash before
    · exact last ((Bytes.dropSuffix_isPrefix _ _).mem inside)

theorem isClean_clean (path : Bytes) : IsClean (clean path) := ⟨_, _, elements_normal path, rfl⟩

theorem isClean_absolute {dir path : Bytes} (some : path ≠ []) : IsClean (absolute dir path) := by
  unfold absolute
  split
  · exact isClean_clean path
  · by_cases empty : dir = []
    · have joined : join [dir, path] = clean path := by simp [join, empty, some, Bytes.join]
      exact joined ▸ isClean_clean path
    · have joined : join [dir, path] = clean (dir ++ "/" ++ path) := by simp [join, empty, Bytes.join]
      exact joined ▸ isClean_clean _

theorem displayName_isClean (workDir file base : Bytes) : IsClean (displayName workDir file base) := by
  unfold displayName
  dsimp only
  split
  · exact isClean_clean file
  split
  · next below =>
    obtain ⟨names, split, same⟩ := relative_down (by simpa using below.2)
    exact ⟨false, names, (split ▸ elements_normal _).behind, same⟩
  · exact isClean_absolute (clean_ne_nil file)

/-! ## Below the output directory -/

/-- A path leads to something strictly below a directory, by the names in both alone. -/
structure Path.Below (path dir : Bytes) : Prop where
  same : isAbsolute path = isAbsolute dir
  names : ∃ names, names ≠ [] ∧ (∀ name ∈ names, Plain name) ∧ elements path = elements dir ++ names

theorem ofElements_relative {names : List Bytes} (some : names ≠ []) :
    ofElements false names = Bytes.join "/" names := by
  rw [ofElements, if_neg Bool.false_ne_true, if_neg some]

section
variable {names : List Bytes} (some : names ≠ []) (plain : ∀ name ∈ names, Plain name)
include some plain

theorem isAbsolute_names : isAbsolute (Bytes.join "/" names) = false :=
  ofElements_relative some ▸ isAbsolute_ofElements (Normal.nil.append plain) some

theorem join_path (root : Bytes) :
    join [root, Bytes.join "/" names] = ofElements (isAbsolute root) (elements root ++ names) := by
  by_cases empty : root = []
  · have normal : Normal false names := Normal.nil.append plain
    have nonempty : Bytes.join "/" names ≠ [] := ofElements_relative some ▸ ofElements_ne_nil normal some
    have joined : join [root, Bytes.join "/" names] = clean (Bytes.join "/" names) := by
      simp [join, empty, nonempty, Bytes.join]
    rw [joined, ← ofElements_relative some, clean, isAbsolute_ofElements normal some, elements_ofElements normal some,
      empty]
    rfl
  · obtain ⟨name, names, rfl⟩ := List.exists_cons_of_ne_nil some
    rw [← join_names empty plain]
    simp [join, empty, Bytes.join]

theorem elements_join_path (root : Bytes) :
    isAbsolute (join [root, Bytes.join "/" names]) = isAbsolute root ∧
      elements (join [root, Bytes.join "/" names]) = elements root ++ names := by
  have normal := (elements_normal root).append plain
  have nonempty : elements root ++ names ≠ [] := fun none => some (List.append_eq_nil_iff.1 none).2
  rw [join_path some plain]
  exact ⟨isAbsolute_ofElements normal nonempty, elements_ofElements normal nonempty⟩

end

theorem artifactPath_below {display : Bytes} (h : IsClean display) {format : EmitFormat} (written : format ≠ .none)
    (root : Bytes) : Below (artifactPath root display format) (clean root) := by
  obtain ⟨names, some, plain, joined⟩ := exists_names_artifactName h written
  obtain ⟨same, split⟩ := elements_join_path some plain root
  rw [artifactPath, joined]
  exact ⟨by rw [same, isAbsolute_clean], names, some, plain, by rw [split, elements_clean]⟩

theorem BuildOutcome.outputs_emitted_none {root : Bytes} (o : BuildOutcome) :
    (o.emitted root .none).outputs = o.outputs := by
  unfold emitted
  split
  · rw [if_pos (.inr rfl)]
  · rfl

theorem compileTarget_names {t : FileTree} {r : BuildRequest} {target : CompiledTarget}
    (compiled : (t.compileTarget r).compiled = some target) :
    ∃ sources, target.names = displayNames t.workDir r.base sources := by
  unfold FileTree.compileTarget at compiled
  split at compiled
  · cases compiled
  · next sources isDir _ =>
    refine ⟨sources, ?_⟩
    dsimp only at compiled
    split at compiled
    · cases compiled
      rfl
    · split at compiled
      · cases compiled
        rfl
      · cases compiled
        rfl

/-- Every artifact of a build is that of a display name, in a format that is written. -/
theorem exists_display {t : FileTree} {r : BuildRequest} {path : Bytes} (h : path ∈ (t.build r).outputs) :
    ∃ source format, format ≠ .none ∧
      path = artifactPath (outputRoot r) (displayName t.workDir source r.base) format := by
  unfold FileTree.build at h
  split at h
  · cases h
  · next format _ =>
    obtain ⟨nothing, -⟩ := compileTarget_files t r
    have written : format ≠ .none := by
      rintro rfl
      rw [BuildOutcome.outputs_emitted_none, nothing] at h
      cases h
    obtain ⟨target, name, c, found, member, -, place⟩ := BuildOutcome.mem_outputs_emitted nothing h
    obtain ⟨sources, names⟩ := compileTarget_names found
    have shown := (List.of_mem_zip member).1
    rw [names, displayNames] at shown
    obtain ⟨source, -, rfl⟩ := List.mem_map.1 shown
    exact ⟨source, format, written, place⟩

/-- Artifacts never leave the output directory. Whatever the paths of the source, the base and the output directory are,
the name of an artifact is relative and has no step up in it, so its path lies strictly below the output directory;
and so does all that a build writes. -/
theorem artifacts_stay_below_root :
    (∀ (workDir file base root : Bytes) (format : EmitFormat), format ≠ .none →
      let name := artifactName (displayName workDir file base) format.extension
      isAbsolute name = false ∧ (∀ piece ∈ Bytes.splitOn slash name, piece ≠ "..") ∧
        clean (join [root, name]) = join [root, name] ∧ Below (join [root, name]) (clean root)) ∧
    ∀ (t : FileTree) (r : BuildRequest), ∀ path ∈ (t.build r).outputs, Below path (clean (outputRoot r)) := by
  refine ⟨fun workDir file base root format written => ?_, fun t r path mem => ?_⟩
  · have shown := displayName_isClean workDir file base
    have below := artifactPath_below shown written root
    obtain ⟨names, some, plain, joined⟩ := exists_names_artifactName shown written
    rw [artifactPath] at below
    dsimp only
    rw [joined] at below ⊢
    refine ⟨isAbsolute_names some plain, ?_, clean_join ?_, below⟩
    · rw [splitOn_join some fun name mem => (plain name mem).noSlash]
      exact fun piece mem => (plain piece mem).noDots
    · intro none
      obtain ⟨behind, nonempty, -, split⟩ := below.names
      rw [none] at split
      exact nonempty (List.append_eq_nil_iff.1 split.symm).2
  · obtain ⟨source, format, written, rfl⟩ := exists_display mem
    exact artifactPath_below (displayName_isClean t.workDir source r.base) written (outputRoot r)

/-- A source outside the working directory, below directories whose names end with dots; two dots are left of its own
name without the extension. -/
theorem dotted_artifact_stays_below_root :
    EmitFormat.listing ≠ .none ∧ displayName "/w" "../..../b../...rano" [] = "../..../b../...rano" ∧
      join ["../out", artifactName "../..../b../...rano" ".rir"] = "../out/..b...rir" ∧
      Below "../out/..b...rir" "../out" := by
  have shown : displayName "/w" "../..../b../...rano" [] = "../..../b../...rano" := by decide +kernel
  have path : join ["../out", artifactName "../..../b../...rano" ".rir"] = "../out/..b...rir" := by decide +kernel
  have root : clean "../out" = "../out" := by decide +kernel
  obtain ⟨-, -, -, below⟩ := artifacts_stay_below_root.1 "/w" "../..../b../...rano" [] "../out" .listing (by decide)
  rw [shown, root] at below
  exact ⟨by decide, shown, path, path ▸ below⟩

end LetStack
