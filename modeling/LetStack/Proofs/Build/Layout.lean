import LetStack.Proofs.Build.Containment
import LetStack.Proofs.Build.Settling

/-!
Where `emitOne` puts the artifact of a source below the base (`LiesAt.artifactName_eq`): at the place of the source
exactly if no directory below the base ends with two dots and the relative path does not start with two
(`artifact_layout`). Otherwise two sources can have one artifact (`dotted_directory_loses_layout`).
-/

namespace LetStack
open LetStack.Path

/-! ## Texts and names -/

theorem join_injective {xs ys : List Bytes} (some : xs ≠ []) (some' : ys ≠ []) (plain : ∀ x ∈ xs, slash ∉ x)
    (plain' : ∀ y ∈ ys, slash ∉ y) (same : Bytes.join "/" xs = Bytes.join "/" ys) : xs = ys := by
  rw [← splitOn_join some plain, same, splitOn_join some' plain']

theorem spliced_eq_join {dirs : List Bytes} (kept : ∀ dir ∈ dirs, dir.endsWith ".." = false) (file : Bytes) :
    spliced dirs file = Bytes.join "/" (dirs ++ [file]) := by
  have each : dirs.map dirLeft = dirs.map (· ++ [slash]) := List.map_congr_left fun dir mem => by
    rw [dirLeft, kept dir mem, if_neg Bool.false_ne_true]
  rw [join_dirs, spliced, List.flatMap_def, List.flatMap_def, each]

theorem dirLeft_ne_nil {dir : Bytes} (plain : Plain dir) : dirLeft dir ≠ [] := by
  unfold dirLeft
  split
  · next ends =>
    obtain ⟨front, rfl⟩ := Bytes.endsWith_iff.1 ends
    rw [Bytes.dropSuffix_append]
    rintro rfl
    exact plain.noDots rfl
  · exact List.concat_ne_nil slash dir

theorem spliced_append_eq_join_iff {front dirs : List Bytes} (plain : ∀ dir ∈ front ++ dirs, Plain dir) {file : Bytes}
    (last : slash ∉ file) :
    spliced (front ++ dirs) file = Bytes.join "/" (dirs ++ [file]) ↔
      front = [] ∧ ∀ dir ∈ dirs, dir.endsWith ".." = false := by
  have noSlash : ∀ piece ∈ dirs ++ [file], slash ∉ piece := fun piece mem => (List.mem_append.1 mem).elim
    (fun dir => (plain piece (List.mem_append_right _ dir)).noSlash) (fun own => List.mem_singleton.1 own ▸ last)
  constructor
  · intro same
    -- what is left is a path of names again, and these are the names on the right
    obtain ⟨dirs', front', plain', noSlash', joined⟩ := exists_names_spliced (fun dir mem => (plain dir mem).pathPiece)
      (List.not_mem_nil : slash ∉ []) file
    have names : dirs' ++ [front' ++ file] = dirs ++ [file] := by
      refine join_injective (List.concat_ne_nil _ _) (List.concat_ne_nil _ _) (fun piece mem => ?_) noSlash
        (joined.symm.trans same)
      rcases List.mem_append.1 mem with dir | own
      · exact (plain' piece dir).1.noSlash
      · rw [List.mem_singleton.1 own]
        exact fun mem => (List.mem_append.1 mem).elim noSlash' last
    obtain ⟨rfl, -⟩ := List.append_inj' names rfl
    have kept : ∀ dir ∈ dirs', dir.endsWith ".." = false := fun dir mem => (plain' dir mem).2
    refine ⟨?_, kept⟩
    -- so the part behind the first directories is the whole text, and nothing is left of these
    have nothing : front.flatMap dirLeft = [] := by
      rw [← spliced_eq_join kept, spliced, spliced, List.flatMap_append, List.append_assoc] at same
      exact List.append_left_eq_self.1 same
    cases front with
    | nil => rfl
    | cons dir front =>
      rw [List.flatMap_cons] at nothing
      exact absurd (List.append_eq_nil_iff.1 nothing).1 (dirLeft_ne_nil (plain dir List.mem_cons_self))
  · rintro ⟨rfl, kept⟩
    exact spliced_eq_join kept file

theorem join_path_injective {names names' : List Bytes} (some : names ≠ []) (some' : names' ≠ [])
    (plain : ∀ name ∈ names, Plain name) (plain' : ∀ name ∈ names', Plain name) {root : Bytes}
    (same : join [root, Bytes.join "/" names] = join [root, Bytes.join "/" names']) : names = names' := by
  have split := congrArg elements same
  rw [(elements_join_path some plain root).2, (elements_join_path some' plain' root).2] at split
  exact List.append_cancel_left split

/-! ## Sources below a base -/

theorem Path.withoutCommon_append (front names : List Bytes) : withoutCommon front (front ++ names) = ([], names) := by
  induction front with
  | nil => cases names <;> rfl
  | cons name front ih => rw [List.cons_append, withoutCommon, if_pos rfl, ih]

/-- A source lies below a base, behind directories and with a name of its own in front of the extension. -/
def LiesAt (workDir base source : Bytes) (dirs : List Bytes) (stem : Bytes) : Prop :=
  elements (absolute workDir (clean source)) =
    elements (absolute workDir base) ++ (dirs ++ [stem ++ sourceExtension])

/-- The way from a base to a source starts with two dots, as if it were a step up. -/
def LooksUpward (dirs : List Bytes) (stem : Bytes) : Prop :=
  (Bytes.join "/" (dirs ++ [stem ++ sourceExtension])).startsWith ".." = true

instance (dirs : List Bytes) (stem : Bytes) : Decidable (LooksUpward dirs stem) :=
  inferInstanceAs (Decidable (_ = true))

/-- The directories that stand in the name of an artifact: those below the base, and those from the root where the
source is shown by its whole path. -/
def shownDirs (workDir base : Bytes) (dirs : List Bytes) (stem : Bytes) : List Bytes :=
  if LooksUpward dirs stem then elements (absolute workDir base) ++ dirs else dirs

/-- What a source needs for its artifact to be found at its place. -/
structure KeepsLayout (workDir base : Bytes) (dirs : List Bytes) (stem : Bytes) : Prop where
  /-- No directory loses its dots and the slash. -/
  undotted : ∀ dir ∈ dirs, dir.endsWith ".." = false
  /-- The source is shown by its way from the base, or the base is the root. -/
  shown : LooksUpward dirs stem → elements (absolute workDir base) = []

section
variable {workDir base source stem : Bytes} {dirs : List Bytes} (rooted : isAbsolute workDir = true)
  (lies : LiesAt workDir base source dirs stem)
include rooted lies

theorem LiesAt.plain :
    ∀ name ∈ elements (absolute workDir base) ++ (dirs ++ [stem ++ sourceExtension]), Plain name := by
  have normal := elements_normal (absolute workDir (clean source))
  rw [isAbsolute_absolute rooted, show elements _ = _ from lies] at normal
  exact normal.plain

theorem LiesAt.stem_noSlash : slash ∉ stem := fun mem =>
  (lies.plain rooted _ (List.mem_append_right _ (List.mem_append_right _ List.mem_cons_self))).noSlash
    (List.mem_append_left _ mem)

theorem LiesAt.plain_dirs : ∀ dir ∈ elements (absolute workDir base) ++ dirs, Plain dir := fun dir mem =>
  lies.plain rooted dir ((List.mem_append.1 mem).elim (List.mem_append_left _)
    fun below => List.mem_append_right _ (List.mem_append_left _ below))

theorem LiesAt.plain_shownDirs : ∀ dir ∈ shownDirs workDir base dirs stem, Plain dir := by
  intro dir mem
  unfold shownDirs at mem
  split at mem
  · exact lies.plain_dirs rooted dir mem
  · exact lies.plain_dirs rooted dir (List.mem_append_right _ mem)

theorem LiesAt.plain_place {format : EmitFormat} (written : format ≠ .none) :
    ∀ name ∈ dirs ++ [stem ++ format.extension], Plain name := by
  intro name mem
  rcases List.mem_append.1 mem with dir | own
  · exact lies.plain_dirs rooted name (List.mem_append_right _ dir)
  · rw [List.mem_singleton.1 own]
    exact plain_extension (lies.stem_noSlash rooted) written

variable (trimmed : Utf8.trim base = base) (based : base ≠ [])
include trimmed based

/-- A source below a base is shown by the way to it, unless this way looks like a step up. -/
theorem LiesAt.displayName_eq :
    displayName workDir source base = ofElements (decide (LooksUpward dirs stem))
      (shownDirs workDir base dirs stem ++ [stem ++ sourceExtension]) := by
  have some : dirs ++ [stem ++ sourceExtension] ≠ [] := List.concat_ne_nil _ _
  have way : relative (absolute workDir base) (absolute workDir (clean source)) =
      ofElements false (dirs ++ [stem ++ sourceExtension]) := by
    unfold relative
    rw [show elements (absolute workDir (clean source)) = _ from lies, withoutCommon_append]
    rfl
  have inside : ofElements false (dirs ++ [stem ++ sourceExtension]) ≠ "." := by
    intro dot
    have normal : Normal false (dirs ++ [stem ++ sourceExtension]) := Normal.nil.append fun name mem =>
      lies.plain rooted name (List.mem_append_right _ mem)
    have none := elements_ofElements normal some
    rw [dot] at none
    exact some none.symm
  unfold displayName shownDirs
  dsimp only
  rw [trimmed, if_neg based, way]
  by_cases upward : LooksUpward dirs stem
  · rw [if_pos upward, decide_eq_true upward, if_neg, absolute_eq rooted, show elements _ = _ from lies,
      List.append_assoc]
    rw [ofElements_relative some, show Bytes.startsWith _ _ = true from upward]
    exact fun below => Bool.false_ne_true below.2
  · rw [if_neg upward, decide_eq_false upward, if_pos]
    refine ⟨inside, ?_⟩
    rw [ofElements_relative some, Bool.eq_false_iff.2 upward]
    rfl

theorem LiesAt.artifactName_eq (extension : Bytes) :
    artifactName (displayName workDir source base) extension =
      spliced (shownDirs workDir base dirs stem) (stem ++ extension) := by
  have pieces : ∀ dir ∈ shownDirs workDir base dirs stem, PathPiece dir := fun dir mem =>
    (lies.plain_shownDirs rooted dir mem).pathPiece
  have file : slash ∉ stem ++ sourceExtension := fun mem =>
    (List.mem_append.1 mem).elim (lies.stem_noSlash rooted) (by decide : slash ∉ sourceExtension)
  rw [lies.displayName_eq rooted trimmed based, artifactName_ofElements pieces file, Bytes.dropSuffix_append]

theorem LiesAt.artifactName_eq_iff {format : EmitFormat} (written : format ≠ .none) :
    artifactName (displayName workDir source base) format.extension =
        Bytes.join "/" (dirs ++ [stem ++ format.extension]) ↔ KeepsLayout workDir base dirs stem := by
  have plain := lies.plain_dirs rooted
  have last : slash ∉ stem ++ format.extension :=
    (lies.plain_place rooted written _ (List.mem_append_right _ List.mem_cons_self)).noSlash
  rw [lies.artifactName_eq rooted trimmed based]
  unfold shownDirs
  by_cases upward : LooksUpward dirs stem
  · rw [if_pos upward, spliced_append_eq_join_iff plain last]
    exact ⟨fun h => ⟨h.2, fun _ => h.1⟩, fun h => ⟨h.shown upward, h.undotted⟩⟩
  · have below : ∀ dir ∈ [] ++ dirs, Plain dir := fun dir mem => plain dir (List.mem_append_right _ mem)
    have kept := spliced_append_eq_join_iff below last
    rw [List.nil_append] at kept
    rw [if_neg upward, kept]
    exact ⟨fun h => ⟨h.2, fun up => absurd up upward⟩, fun h => ⟨rfl, h.undotted⟩⟩

theorem LiesAt.artifactPath_eq_iff {format : EmitFormat} (written : format ≠ .none) (root : Bytes) :
    artifactPath root (displayName workDir source base) format =
        join [root, Bytes.join "/" (dirs ++ [stem ++ format.extension])] ↔ KeepsLayout workDir base dirs stem := by
  rw [← lies.artifactName_eq_iff rooted trimmed based written, artifactPath]
  constructor
  · obtain ⟨names, some, plain, joined⟩ := exists_names_artifactName (displayName_isClean workDir source base) written
    rw [joined]
    intro same
    rw [join_path_injective some (List.concat_ne_nil _ _) plain (lies.plain_place rooted written) same]
  · exact congrArg fun name => join [root, name]

/-- Sources that keep the layout share an artifact only if they are one file. -/
theorem LiesAt.absolute_eq_of_artifactPath_eq {source' stem' : Bytes} {dirs' : List Bytes}
    (lies' : LiesAt workDir base source' dirs' stem') (keeps : KeepsLayout workDir base dirs stem)
    (keeps' : KeepsLayout workDir base dirs' stem') {format : EmitFormat} (written : format ≠ .none) {root : Bytes}
    (same : artifactPath root (displayName workDir source base) format =
      artifactPath root (displayName workDir source' base) format) :
    absolute workDir (clean source) = absolute workDir (clean source') := by
  rw [(lies.artifactPath_eq_iff rooted trimmed based written root).2 keeps,
    (lies'.artifactPath_eq_iff rooted trimmed based written root).2 keeps'] at same
  have names := join_path_injective (List.concat_ne_nil _ _) (List.concat_ne_nil _ _)
    (lies.plain_place rooted written) (lies'.plain_place rooted written) same
  obtain ⟨rfl, last⟩ := List.append_inj' names rfl
  obtain rfl := List.append_cancel_right (List.singleton_inj.1 last)
  have elements : elements (absolute workDir (clean source)) = elements (absolute workDir (clean source')) :=
    lies.trans lies'.symm
  rw [absolute_eq rooted, elements, ← absolute_eq rooted]

end

/-! ## What a build writes -/

/-- The artifacts of sources whose compilations do not say that they failed, each with its path. -/
def artifactsOf (root : Bytes) (format : EmitFormat) (named : List (Bytes × Compilation)) :
    List (Bytes × Machine.Program) :=
  (named.filter fun p => !p.2.hasFailed).map fun p => (artifactPath root p.1 format, p.2.program)

/-- Artifacts were written one after another between two states of a build. -/
structure BuildOutcome.Wrote (o : BuildOutcome) (format : EmitFormat) (artifacts : List (Bytes × Machine.Program))
    (o' : BuildOutcome) : Prop where
  outputs : o'.outputs = o.outputs ++ artifacts.map (·.1)
  tree : artifacts.foldlM (fun t a => t.writeArtifact a.1 format a.2) o.tree = .ok o'.tree

namespace BuildOutcome

variable {root : Bytes} {format : EmitFormat} {o o' o'' : BuildOutcome}

theorem Wrote.refl : Wrote o format [] o := ⟨(List.append_nil _).symm, rfl⟩

theorem Wrote.append {first second : List (Bytes × Machine.Program)} (h : Wrote o format first o')
    (h' : Wrote o' format second o'') : Wrote o format (first ++ second) o'' where
  outputs := by rw [h'.outputs, h.outputs, List.append_assoc, List.map_append]
  tree := by
    rw [List.foldlM_append, h.tree]
    exact h'.tree

theorem wrote_emitOne {name : Bytes} {c : Compilation} (ok : (o.emitOne root format name c).error = none) :
    Wrote o format (artifactsOf root format [(name, c)]) (o.emitOne root format name c) := by
  have before := (events_emitOne ok).1
  unfold emitOne at ok ⊢
  unfold artifactsOf
  cases failed : c.hasFailed with
  | true =>
    rw [if_pos (.inr rfl), List.filter_cons_of_neg (by simp [failed])]
    exact .refl
  | false =>
    have going : ¬(o.error.isSome = true ∨ false = true) := by simp [before]
    rw [failed, if_neg going] at ok
    rw [if_neg going, List.filter_cons_of_pos (by simp [failed])]
    dsimp only at ok ⊢
    cases outcome : o.tree.writeArtifact (artifactPath root name format) format c.program with
    | error e =>
      rw [outcome] at ok
      cases ok
    | ok tree =>
      refine ⟨rfl, ?_⟩
      show (o.tree.writeArtifact (artifactPath root name format) format c.program >>= fun t => pure t) = _
      rw [outcome]
      rfl

theorem wrote_foldl {named : List (Bytes × Compilation)}
    (ok : (named.foldl (fun o p => o.emitOne root format p.1 p.2) o).error = none) :
    Wrote o format (artifactsOf root format named) (named.foldl (fun o p => o.emitOne root format p.1 p.2) o) := by
  induction named generalizing o with
  | nil => exact .refl
  | cons first named ih =>
    rw [List.foldl_cons] at ok ⊢
    have one : (o.emitOne root format first.1 first.2).error = none := (events_foldl ok).1
    have split : artifactsOf root format (first :: named) =
        artifactsOf root format [first] ++ artifactsOf root format named := by
      unfold artifactsOf
      rw [← List.map_append, ← List.filter_append, List.singleton_append]
    rw [split]
    exact (wrote_emitOne one).append (ih ok)

theorem wrote_emitted {target : CompiledTarget} (compiled : o.compiled = some target) (written : format ≠ .none)
    (ok : (o.emitted root format).error = none) :
    Wrote o format (artifactsOf root format (target.names.zip target.files)) (o.emitted root format) := by
  have before := (emitted_of_compiled compiled ok).1
  have going : ¬(o.error.isSome = true ∨ format = .none) := by simp [before, written]
  unfold emitted at ok ⊢
  rw [compiled] at ok ⊢
  dsimp only at ok ⊢
  rw [if_neg going] at ok ⊢
  unfold emitAll at ok ⊢
  dsimp only at ok ⊢
  split at ok
  · next stopped =>
    rw [ok] at stopped
    cases stopped
  · next done =>
    rw [if_neg done]
    obtain ⟨outputs, tree⟩ := wrote_foldl ok
    exact ⟨outputs, tree⟩

end BuildOutcome

/-- A build without an error writes the artifacts of its sources under the names that these are shown by. -/
theorem build_wrote {t : FileTree} (regular : t.Regular) {r : BuildRequest} {format : EmitFormat}
    (emit : r.emit = format.name) (written : format ≠ .none) (ok : (t.build r).error = none) :
    ∃ sources files, Results t r sources files ∧ (t.build r).compiled.map (·.files) = some files ∧
      (t.compileTarget r).Wrote format
        (artifactsOf (outputRoot r) format ((sources.map (displayName t.workDir · r.base)).zip files)) (t.build r) := by
  rw [build_of_emit emit] at ok ⊢
  obtain ⟨sources, files, run⟩ := compileTarget_sideBySide regular (BuildOutcome.error_of_emitted ok)
  obtain ⟨isDir, listed⟩ := run.results.listed
  obtain ⟨target, compiled, names, rfl⟩ := run.compiled
  obtain ⟨-, ⟨after, still, -, results⟩, -⟩ := BuildOutcome.emitted_of_compiled compiled ok
  have wrote := BuildOutcome.wrote_emitted compiled written ok
  rw [names, (regular.nodup_displayNames listed r.base).1] at wrote
  exact ⟨sources, target.files, run.results, by rw [still, Option.map_some, results], wrote⟩

/-- Where the artifacts of a build go, under a base without blanks around it. The artifact of a source below the base
has what is left of the shown directories for its path, and this is the place of the source exactly if the source keeps
the layout; two sources that keep it have one artifact only if they are one file. A build without an error writes the
artifact of every source whose compilation does not say that it failed, in the order of the sources, and leaves a tree
for which all this holds again. -/
theorem artifact_layout {t : FileTree} (regular : t.Regular) {r : BuildRequest} (trimmed : Utf8.trim r.base = r.base)
    (based : r.base ≠ []) {format : EmitFormat} (emit : r.emit = format.name) (written : format ≠ .none) :
    (∀ source dirs stem, LiesAt t.workDir r.base source dirs stem →
      artifactPath (outputRoot r) (displayName t.workDir source r.base) format =
        join [outputRoot r, spliced (shownDirs t.workDir r.base dirs stem) (stem ++ format.extension)] ∧
      (artifactPath (outputRoot r) (displayName t.workDir source r.base) format =
          join [outputRoot r, Bytes.join "/" (dirs ++ [stem ++ format.extension])] ↔
        KeepsLayout t.workDir r.base dirs stem)) ∧
    (∀ source dirs stem source' dirs' stem', LiesAt t.workDir r.base source dirs stem →
      LiesAt t.workDir r.base source' dirs' stem' → KeepsLayout t.workDir r.base dirs stem →
      KeepsLayout t.workDir r.base dirs' stem' →
      artifactPath (outputRoot r) (displayName t.workDir source r.base) format =
        artifactPath (outputRoot r) (displayName t.workDir source' r.base) format →
      absolute t.workDir (clean source) = absolute t.workDir (clean source')) ∧
    ((t.build r).error = none → ∃ sources files, Results t r sources files ∧
      (t.build r).compiled.map (·.files) = some files ∧
      (t.build r).outputs = (artifactsOf (outputRoot r) format
        ((sources.map (displayName t.workDir · r.base)).zip files)).map (·.1) ∧
      (artifactsOf (outputRoot r) format ((sources.map (displayName t.workDir · r.base)).zip files)).foldlM
        (fun t a => t.writeArtifact a.1 format a.2) (t.compileTarget r).tree = .ok (t.build r).tree) ∧
    (t.build r).tree.Regular := by
  have rooted := regular.rooted
  refine ⟨fun source dirs stem lies => ⟨?_, lies.artifactPath_eq_iff rooted trimmed based written _⟩, ?_, fun ok => ?_,
    regular.build r⟩
  · rw [artifactPath, lies.artifactName_eq rooted trimmed based]
  · intro source dirs stem source' dirs' stem' lies lies' keeps keeps' same
    exact lies.absolute_eq_of_artifactPath_eq rooted trimmed based lies' keeps keeps' written same
  · obtain ⟨sources, files, results, compiled, outputs, tree⟩ := build_wrote regular emit written ok
    rw [(compileTarget_files t r).1, List.nil_append] at outputs
    exact ⟨sources, files, results, compiled, outputs, tree⟩

/-! A source in a directory whose name ends with two dots, and a build of it. -/

private def dottedTree : FileTree :=
  { entries := deviceEntries ++
      [([Bytes.ofString "a.."], .directory), ([Bytes.ofString "a..", Bytes.ofString "b.rano"], .file "1;")] }

private def dottedRequest : BuildRequest := { target := "/a../b.rano", base := "/", emit := "ir", out := "/" }

private theorem dottedTree_regular : dottedTree.Regular := ⟨by decide, by decide, by decide⟩

private theorem dottedTree_place :
    dottedTree.place true "/a../b.rano" =
      .ok (.found [Bytes.ofString "a..", Bytes.ofString "b.rano"] (.file "1;")) := by
  have steps : dottedTree.place true "/a../b.rano" =
      dottedTree.walk true FileTree.maxLinks [] ([[], Bytes.ofString "a.."] ++ [Bytes.ofString "b.rano"]) := rfl
  have way : dottedTree.Reaches FileTree.maxLinks [] [[], Bytes.ofString "a.."] [Bytes.ofString "a.."]
      FileTree.maxLinks :=
    .stay (.inl rfl) (.down (by decide) (by decide) (by decide) (by decide) .here)
  rw [steps, way.walk_append true (.inl rfl)]
  exact (dottedTree.walk_last true _ _ (by decide)).1 _ (by decide) (by rintro target ⟨⟩)

private theorem dottedTree_writeArtifact (p : Machine.Program) :
    ∃ t, dottedTree.writeArtifact "/ab.rir" .listing p = .ok t := by
  have free : dottedTree.place true "/ab.rir" = .ok (.free [Bytes.ofString "ab.rir"] false) := by
    have steps : dottedTree.place true "/ab.rir" =
        dottedTree.walk true FileTree.maxLinks [] [[], Bytes.ofString "ab.rir"] := rfl
    rw [steps, FileTree.walk_empty]
    exact (dottedTree.walk_last true _ [] (by decide)).2 (by decide)
  exact exists_writeArtifact (by decide +kernel) free .listing p

private theorem dottedTree_build :
    (dottedTree.build dottedRequest).outputs = [Bytes.ofString "/ab.rir"] ∧
      (dottedTree.build dottedRequest).error = none := by
  have sources : dottedTree.targetSources dottedRequest.target = .ok ([Bytes.ofString "/a../b.rano"], false) := by
    have stat : dottedTree.stat dottedRequest.target = .ok (.file "1;") := by
      unfold FileTree.stat FileTree.lookup
      rw [show dottedTree.place true dottedRequest.target = _ from dottedTree_place]
      rfl
    unfold FileTree.targetSources
    rw [stat]
    rfl
  have compiled : ∃ fs c, dottedTree.compile dottedRequest.options dottedRequest.cacheDir? dottedRequest.target =
      .ok (fs, c, dottedTree) ∧ c.hasFailed = false := by
    have read : dottedTree.read dottedRequest.target = .ok (Bytes.ofString "1;") := by
      unfold FileTree.read FileTree.lookup
      rw [show dottedTree.place true dottedRequest.target = _ from dottedTree_place]
    unfold FileTree.compile
    rw [read]
    exact ⟨_, _, rfl, by decide +kernel⟩
  have path : artifactPath (outputRoot dottedRequest) "a../b.rano" .listing = Bytes.ofString "/ab.rir" := by
    decide +kernel
  obtain ⟨fs, c, compiled, succeeded⟩ := compiled
  obtain ⟨t, written⟩ := dottedTree_writeArtifact c.program
  rw [← path] at written ⊢
  exact build_of_file rfl (by decide) sources (by decide +kernel) compiled succeeded written

/-- The build writes the one artifact that there is to write; a source in a directory with two dots in front of its name
would have its own at its place. -/
theorem dotted_build_writes_artifact :
    dottedTree.Regular ∧ (dottedTree.build dottedRequest).error = none ∧
      (∃ sources files, Results dottedTree dottedRequest sources files ∧
        (dottedTree.build dottedRequest).outputs = (artifactsOf "/" .listing
          ((sources.map (displayName "/" · "/")).zip files)).map (·.1)) ∧
      KeepsLayout "/" "/" ["..a"] "b" ∧
      artifactPath "/" (displayName "/" "/..a/b.rano" "/") .listing = "/..a/b.rir" := by
  have keeps : KeepsLayout "/" "/" ["..a"] "b" := ⟨by decide, fun _ => by decide +kernel⟩
  have lies : LiesAt "/" "/" "/..a/b.rano" ["..a"] "b" := by
    unfold LiesAt
    decide +kernel
  obtain ⟨place, -, writes, -⟩ := @artifact_layout dottedTree dottedTree_regular dottedRequest (by decide +kernel)
    (by decide) .listing rfl (by decide)
  obtain ⟨sources, files, results, -, outputs, -⟩ := writes dottedTree_build.2
  refine ⟨dottedTree_regular, dottedTree_build.2, ⟨sources, files, results, outputs⟩, keeps, ?_⟩
  exact ((place _ _ _ lies).2.2 keeps).trans (by decide +kernel)

/-- A build writes the artifact of a source below the root at a place without the directory of the source, where that of
another source belongs. Under a base that is not the root, the artifact of a source whose own name starts with two dots
is found behind the names of the base. -/
theorem dotted_directory_loses_layout :
    (LiesAt "/" "/" "/a../b.rano" ["a.."] "b" ∧ (dottedTree.build dottedRequest).error = none ∧
      (dottedTree.build dottedRequest).outputs = [Bytes.ofString "/ab.rir"]) ∧
    (LiesAt "/" "/" "/ab.rano" [] "ab" ∧
      artifactPath "/" (displayName "/" "/ab.rano" "/") .listing =
        artifactPath "/" (displayName "/" "/a../b.rano" "/") .listing) ∧
    (LiesAt "/" "/w" "/w/..a.rano" [] "..a" ∧
      artifactPath "/out" (displayName "/" "/w/..a.rano" "/w") .listing = "/out/w/..a.rir") := by
  unfold LiesAt
  exact ⟨⟨by decide +kernel, dottedTree_build.2, dottedTree_build.1⟩, ⟨by decide +kernel, by decide +kernel⟩,
    by decide +kernel, by decide +kernel⟩

end LetStack
