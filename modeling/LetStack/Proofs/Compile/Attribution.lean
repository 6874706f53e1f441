import LetStack.Diagnostic.Pretty
import LetStack.Proofs.Compile.Failing
import LetStack.Proofs.Compile.Outcome
import LetStack.Proofs.Files.Sources

/-!
The file of each diagnostic that `compileDirectory` gives. The diagnostics of a source that was read name its own
file, also from the cache (`Job.Yields.file_of_mem`). `Compilation.unreadable` names the file with number 0, which is
the first source that was read (`directory_attribution`, `unreadable_shown_for_other`).
-/

namespace LetStack
open Compilation

/-! ## Files of diagnostics -/

namespace Compilation

theorem file_diagnostic (failure : Grammar.Failure) (file : FileId) : (failure.diagnostic file).file = file := by
  unfold Grammar.Failure.diagnostic
  cases failure.cause <;> rfl

variable {f : SourceFile} {opts : CompileOptions} {d : Diagnostic}

theorem file_reportsOf (h : d ∈ reportsOf opts f) : d.file = f.id := by
  rcases List.mem_append.1 h with warning | error
  · obtain ⟨tok, -, rfl⟩ := List.mem_map.1 warning
    rfl
  · unfold errorsOf at error
    split at error
    · rw [List.mem_singleton.1 error]
      exact file_diagnostic _ f.id
    · next parsed =>
      rw [items_walkOf parsed] at error
      obtain ⟨report, -, mapped⟩ := List.mem_filterMap.1 error
      obtain ⟨fault, -, rfl⟩ := Option.map_eq_some_iff.1 mapped
      rfl

theorem file_fresh (h : d ∈ (fresh opts f).bag.items) : d.file = f.id := by
  rw [fresh_bag, Bag.items_ofLimit] at h
  exact file_reportsOf (Bag.mem_of_mem_kept h)

/-- An outcome from the cache is about the file it is taken for, whichever file it was kept for. -/
theorem file_consulting {answer : CacheAnswer} (h : d ∈ (consulting opts f answer).1.bag.items) : d.file = f.id := by
  cases answer with
  | miss => exact file_fresh h
  | corrupt => exact file_fresh h
  | hit e p =>
    have kept : d ∈ ((Bag.ofLimit opts.limit).addAll (e.diagnostics.map (·.inFile f.id))).items := by
      rwa [← items_addDropped _ e.dropped]
    rw [Bag.items_ofLimit] at kept
    obtain ⟨_, -, rfl⟩ := List.mem_map.1 (Bag.mem_of_mem_kept kept)
    rfl

end Compilation

namespace Job.Yields

variable {opts : CompileOptions} {f : SourceFile} {c : Compilation}

theorem file_of_mem (h : Job.Yields ⟨opts, .file f⟩ c) {d : Diagnostic} (mem : d ∈ c.bag.items) : d.file = f.id := by
  cases h with
  | fresh => exact file_fresh mem
  | consulted => exact file_consulting mem

end Job.Yields

/-! ## Files of a set -/

/-- A path as it is shown, that of no file in particular if there is none. -/
def shownAs (path? : Option Bytes) (style : PathStyle) (base workDir : Bytes) : Bytes :=
  match path? with
  | none => "<unknown>"
  | some path => SourceFile.shownPath { id := 0, path, content := [], lineFeeds := [], hash := [] } style base workDir

def FileSet.pathOf? (fs : FileSet) (id : FileId) : Option Bytes := (fs.get? id).map (·.path)

theorem shownPathOf_eq (fs : FileSet) (id : FileId) (style : PathStyle) (workDir : Bytes) :
    shownPathOf (some fs) id style workDir = shownAs (fs.pathOf? id) style (fs.baseDir workDir) workDir := by
  unfold shownPathOf FileSet.pathOf?
  dsimp only
  cases fs.get? id with
  | none => rfl
  | some f => cases style <;> rfl

/-- Whether the content of a file can be read. -/
def FileTree.canRead (t : FileTree) (path : Bytes) : Bool := (t.read path).toOption.isSome

/-- The file with number 0 is the first one that can be read. -/
theorem pathOf?_zero_load (t : FileTree) (base : Bytes) (paths : List Bytes) :
    (t.load { base } paths).1.pathOf? 0 = (paths.find? t.canRead).map Path.clean := by
  induction paths with
  | nil => rfl
  | cons path paths ih =>
    unfold FileTree.load
    split
    · next content read =>
      obtain ⟨f, found, named⟩ : ∃ f, (({ base } : FileSet).addLoaded path content).2.get? 0 = some f ∧
          f.path = Path.clean path := ⟨_, rfl, rfl⟩
      have can : t.canRead path = true := by
        rw [FileTree.canRead, read]
        rfl
      rw [List.find?_cons_of_pos can, Option.map_some, ← named]
      exact congrArg (Option.map _) (get?_load found)
    · next e read =>
      have not : ¬t.canRead path = true := by
        rw [FileTree.canRead, read]
        exact Bool.false_ne_true
      rw [List.find?_cons_of_neg not]
      exact ih

/-! ## Sources of a directory -/

/-- The path that diagnostics of a source are shown for: its own if it can be read, and otherwise that of the first
source that can, if there is one. -/
def FileTree.blamed? (t : FileTree) (sources : List Bytes) (path : Bytes) : Option Bytes :=
  (if t.canRead path then some path else sources.find? t.canRead).map Path.clean

/-- A diagnostic is about a path: the file it names has that path, unless it names none that there is. -/
def Diagnostic.About (d : Diagnostic) (fs : FileSet) (path : Bytes) : Prop := ∀ found ∈ fs.pathOf? d.file, found = path

/-- What the diagnostics of a listed source are shown for. -/
structure Attributed (t : FileTree) (fs : FileSet) (sources : List Bytes) (source : Bytes) (c : Compilation) :
    Prop where
  path : c.path = Path.clean source
  named : ∀ d ∈ c.bag.items, fs.pathOf? d.file = t.blamed? sources source
  shown : ∀ d ∈ c.bag.items, ∀ style workDir, shownPathOf (some fs) d.file style workDir =
    shownAs (t.blamed? sources source) style (fs.baseDir workDir) workDir
  about_iff : (∀ d ∈ c.bag.items, d.About fs c.path) ↔
    t.canRead source = true ∨ ∀ other ∈ sources, t.canRead other = false

section
variable {t : FileTree} {dir path : Bytes} {sources : List Bytes} {opts : CompileOptions} {loaded : FileTree.Loaded}
  {c : Compilation} (origin : LoadedFrom t (t.load { base := dir } sources).1 path loaded)
  (yields : Job.Yields ⟨opts, loaded⟩ c)
include origin yields

theorem named_of_loaded :
    ∀ d ∈ c.bag.items, (t.load { base := dir } sources).1.pathOf? d.file = t.blamed? sources path := by
  intro d mem
  unfold FileTree.blamed? FileTree.canRead
  cases loaded with
  | file f =>
    obtain ⟨content, read, there, cleaned, -⟩ := origin
    rw [FileSet.pathOf?, yields.file_of_mem mem, there, read, Option.map_some, cleaned]
    rfl
  | failed shown reason =>
    obtain ⟨e, read, -, -⟩ := origin
    cases yields
    rw [items_unreadable] at mem
    rw [List.mem_singleton.1 mem, read]
    exact pathOf?_zero_load t dir sources

theorem items_ne_nil_of_loaded (cannot : t.canRead path = false) : c.bag.items ≠ [] := by
  cases loaded with
  | file f =>
    obtain ⟨content, read, -⟩ := origin
    rw [FileTree.canRead, read] at cannot
    cases cannot
  | failed shown reason =>
    cases yields
    rw [items_unreadable]
    exact List.cons_ne_nil _ _

/-- There is a diagnostic of a source that cannot be read, and it is about another source if there is one that can. -/
theorem about_iff_of_loaded (listed : t.sources dir = .ok sources) (mem : path ∈ sources) :
    (∀ d ∈ c.bag.items, d.About (t.load { base := dir } sources).1 c.path) ↔
      t.canRead path = true ∨ ∀ other ∈ sources, t.canRead other = false := by
  have named := named_of_loaded origin yields
  unfold FileTree.blamed? at named
  rw [yields.path_of_loaded origin]
  cases can : t.canRead path with
  | true =>
    refine ⟨fun _ => .inl rfl, fun _ d mem found there => ?_⟩
    rw [named d mem, if_pos can] at there
    cases there
    rfl
  | false =>
    rw [if_neg (Bool.eq_false_iff.1 can)] at named
    cases first : sources.find? t.canRead with
    | none =>
      rw [first] at named
      refine ⟨fun _ => .inr fun other mem => ?_, fun _ d mem found there => ?_⟩
      · exact Bool.eq_false_iff.2 (List.find?_eq_none.1 first other mem)
      · rw [named d mem] at there
        cases there
    | some other =>
      have mem' := List.mem_of_find?_eq_some first
      have can' := List.find?_some first
      constructor
      · -- sources stay different when they are cleaned, and the other one can be read
        intro about
        obtain ⟨d, stored⟩ := List.exists_mem_of_ne_nil _ (items_ne_nil_of_loaded origin yields can)
        have same : Path.clean other = Path.clean path := about d stored _ (by rw [named d stored, first]; rfl)
        rw [FileTree.sources_clean_injective listed mem' mem same, can] at can'
        cases can'
      · rintro (other | none)
        · cases other
        · rw [none other mem'] at can'
          cases can'

end

theorem attributed {t : FileTree} {dir : Bytes} {sources : List Bytes} (listed : t.sources dir = .ok sources)
    {path : Bytes} (mem : path ∈ sources) {opts : CompileOptions} {loaded : FileTree.Loaded} {c : Compilation}
    (origin : LoadedFrom t (t.load { base := dir } sources).1 path loaded) (yields : Job.Yields ⟨opts, loaded⟩ c) :
    Attributed t (t.load { base := dir } sources).1 sources path c where
  path := yields.path_of_loaded origin
  named := named_of_loaded origin yields
  shown := by
    intro d mem style workDir
    rw [shownPathOf_eq, named_of_loaded origin yields d mem]
  about_iff := about_iff_of_loaded origin yields listed mem

/-- Each diagnostic of a directory is shown for its own source, if that was read. If it was not, the diagnostic is shown
for the first source that was, or for no file if there is none. So those of a source are about it exactly if it was read
or no source was. This is so in whatever order the compilations ask a cache, and whatever it holds. -/
theorem directory_attribution {t : FileTree} {dir : Bytes} {sources : List Bytes} (listed : t.sources dir = .ok sources)
    (opts : CompileOptions) {i : Nat} {source : Bytes} (here : sources[i]? = some source) :
    (∀ cacheDir?, ∃ c, (t.compileDirectory opts cacheDir? dir sources).1.files[i]? = some c ∧
      Attributed t (t.compileDirectory opts cacheDir? dir sources).1.fileSet sources source c) ∧
    ∀ cacheDir schedule c,
      ((Batch.start t (t.directoryJobs opts dir sources)).run cacheDir schedule).outcome? i = some c →
        Attributed t (t.load { base := dir } sources).1 sources source c := by
  have mem := List.mem_of_getElem? here
  obtain ⟨loaded, found, origin⟩ := (load_each { base := dir } sources).2 i source here
  refine ⟨fun cacheDir? => ?_, fun cacheDir schedule c ended => ?_⟩
  · obtain ⟨c, outcome, yields⟩ := (compileAll_yields t opts cacheDir? _).2 i loaded found
    exact ⟨c, outcome, attributed listed mem origin yields⟩
  · have job : (t.directoryJobs opts dir sources)[i]? = some ⟨opts, loaded⟩ := by
      rw [FileTree.directoryJobs, List.getElem?_map, found]
      rfl
    exact attributed listed mem origin (Batch.yields_of_outcome job ended)

/-! A directory with a link that leads nowhere, and a file. -/

def danglingTree : FileTree :=
  { entries := deviceEntries ++ [([Bytes.ofString "a.rano"], .link "gone"), ([Bytes.ofString "b.rano"], .file "1;")] }

def danglingSources : List Bytes := ["a.rano", "b.rano"]

def danglingCompiled : DirectoryCompilation := (danglingTree.compileDirectory {} none "." danglingSources).1

theorem danglingTree_sources : danglingTree.sources "." = .ok danglingSources := by
  have place : danglingTree.place false "." = .ok (.found [] .directory) := by
    have steps : danglingTree.place false "." = danglingTree.walk false FileTree.maxLinks [] [Bytes.ofString "."] := rfl
    rw [steps, FileTree.walk, if_pos (.inr rfl), FileTree.walk]
  have below : danglingTree.entries.filterMap (FileTree.sourceBelow? "." []) = danglingSources := by decide +kernel
  unfold FileTree.sources FileTree.lookup
  rw [place]
  show Except.ok (Bytes.sort (danglingTree.entries.filterMap (FileTree.sourceBelow? "." []))) = _
  rw [below, Bytes.sort, List.mergeSort_of_pairwise (by decide +kernel)]

theorem danglingTree_read :
    danglingTree.read "a.rano" = .error ⟨"open", "a.rano", .noEntry⟩ ∧ danglingTree.read "b.rano" = .ok "1;" := by
  have nowhere : danglingTree.place true "a.rano" = .ok (.free [Bytes.ofString "gone"] false) := by
    have steps : danglingTree.place true "a.rano" =
        danglingTree.walk true FileTree.maxLinks [] [Bytes.ofString "a.rano"] := rfl
    have link : danglingTree.entry? ([] ++ [Bytes.ofString "a.rano"]) = some (.link "gone") := by decide
    rw [steps, FileTree.walk, if_neg (by decide), if_neg (by decide), if_neg (by decide)]
    simp only [link]
    exact (danglingTree.walk_last true 39 [] (by decide)).2 (by decide)
  have file : danglingTree.place true "b.rano" = .ok (.found [Bytes.ofString "b.rano"] (.file "1;")) :=
    (danglingTree.walk_last true FileTree.maxLinks [] (by decide)).1 _ (by decide) (by rintro target ⟨⟩)
  unfold FileTree.read FileTree.lookup
  rw [nowhere, file]
  exact ⟨rfl, rfl⟩

private theorem danglingTree_canRead :
    danglingTree.canRead "a.rano" = false ∧ danglingTree.canRead "b.rano" = true := by
  unfold FileTree.canRead
  rw [danglingTree_read.1, danglingTree_read.2]
  exact ⟨rfl, rfl⟩

private theorem danglingTree_blamed : danglingTree.blamed? danglingSources "a.rano" = some "b.rano" := by
  obtain ⟨cannot, can⟩ := danglingTree_canRead
  rw [FileTree.blamed?, danglingSources, if_neg (Bool.eq_false_iff.1 cannot),
    List.find?_cons_of_neg (Bool.eq_false_iff.1 cannot), List.find?_cons_of_pos can]
  decide +kernel

theorem dangling_link_attribution :
    danglingTree.sources "." = .ok danglingSources ∧ danglingSources[0]? = some (Bytes.ofString "a.rano") ∧
      danglingTree.canRead "a.rano" = false ∧ danglingTree.blamed? danglingSources "a.rano" = some "b.rano" ∧
      ∃ c, danglingCompiled.files[0]? = some c ∧
        Attributed danglingTree danglingCompiled.fileSet danglingSources "a.rano" c := by
  exact ⟨danglingTree_sources, rfl, danglingTree_canRead.1, danglingTree_blamed,
    (directory_attribution danglingTree_sources {} rfl).1 none⟩

/-- What is wrong with the link is shown for the file. -/
theorem unreadable_shown_for_other :
    ∃ c, danglingCompiled.files[0]? = some c ∧ c.path = Bytes.ofString "a.rano" ∧ c.bag.items ≠ [] ∧
      ∀ d ∈ c.bag.items, ∀ workDir,
        shownPathOf (some danglingCompiled.fileSet) d.file .auto workDir = Bytes.ofString "b.rano" := by
  obtain ⟨loaded, found, origin⟩ := (@load_each danglingTree { base := "." } danglingSources).2 0 "a.rano" rfl
  obtain ⟨c, outcome, yields⟩ := (compileAll_yields danglingTree {} none _).2 0 loaded found
  have placed := attributed danglingTree_sources List.mem_cons_self origin yields
  refine ⟨c, outcome, placed.path.trans (by decide +kernel),
    items_ne_nil_of_loaded origin yields danglingTree_canRead.1, fun d stored workDir => ?_⟩
  have shown := placed.shown d stored .auto workDir
  rw [danglingTree_blamed] at shown
  exact shown

end LetStack
