import LetStack.Proofs.Build.Interleaving
import LetStack.Proofs.Build.Naming
import LetStack.Proofs.Compile.Attribution

/-!
Files are compiled side by side, and the reports on their phases come in any order (`SideBySide`). A build without an
error leaves every row done or failed, failed exactly if the compilation has an error in its bag (`progress_settles`).
-/

namespace LetStack
open Compilation

/-! ## What a file reports -/

variable {c : Compilation} {files : List Compilation} {t : FileTree} {r : BuildRequest}

theorem Compilation.file_of_mem_events {e : Phase.Event} (mem : e ∈ c.events) : e.file = c.path := by
  unfold events at mem
  split at mem
  · obtain ⟨run, -, reported⟩ := List.mem_flatMap.1 mem
    unfold Phase.Run.events at reported
    rcases List.mem_cons.1 reported with rfl | ended
    · rfl
    · rw [List.mem_singleton.1 ended]
  · rw [List.mem_singleton.1 mem]

theorem ProgressEvent.ofPhase?_cases {name : Bytes} {e : Phase.Event} {report : ProgressEvent}
    (h : ofPhase? name e = some report) : report.file = name ∧ (report.status = .working ∨ e.phase = .load) := by
  unfold ofPhase? at h
  split at h
  · cases h
    exact ⟨rfl, .inl rfl⟩
  · split at h
    · next load =>
      cases h
      exact ⟨rfl, .inr load⟩
    · cases h
  · cases h

namespace Compilation

/-- A file that was read goes through phases, none of which is to read it. -/
def Working (c : Compilation) : Prop := c.file.isSome = true ∧ ∀ run ∈ c.phases, run.phase ≠ .load

theorem working_fresh (opts : CompileOptions) (f : SourceFile) : (fresh opts f).Working := by
  refine ⟨by rw [fresh_file]; rfl, ?_⟩
  unfold fresh
  dsimp only
  split
  · simp [blank, scanned, unparsed, ran, lexRun, parseRun]
  · simp [blank, scanned, Compilation.parsed, lowered, ran, lexRun, parseRun, codegenRun]

theorem working_consulting (opts : CompileOptions) (f : SourceFile) (answer : CacheAnswer) :
    (consulting opts f answer).1.Working := by
  obtain ⟨known, later⟩ := working_fresh opts f
  cases answer with
  | miss | corrupt =>
    refine ⟨known, fun run mem => ?_⟩
    rcases List.mem_cons.1 mem with rfl | mem
    · exact Phase.noConfusion
    · exact later run mem
  | hit e p =>
    refine ⟨rfl, fun run mem => ?_⟩
    rw [List.mem_singleton.1 mem]
    exact Phase.noConfusion

theorem Working.phase_of_mem {c : Compilation} (h : c.Working) {e : Phase.Event} (mem : e ∈ c.events) :
    e.phase ≠ .load := by
  obtain ⟨known, phases⟩ := h
  unfold events at mem
  rw [if_pos known] at mem
  obtain ⟨run, there, reported⟩ := List.mem_flatMap.1 mem
  unfold Phase.Run.events at reported
  rcases List.mem_cons.1 reported with rfl | ended
  · exact phases run there
  · rw [List.mem_singleton.1 ended]
    exact phases run there

end Compilation

theorem Job.Yields.reports {j : Job} (h : j.Yields c) (name : Bytes) :
    (∀ e ∈ ProgressEvent.working name c, e.status = .working) ∨ c.hasFailed = true := by
  have worked (working : c.Working) : ∀ e ∈ ProgressEvent.working name c, e.status = .working := by
    intro e mem
    obtain ⟨event, there, reported⟩ := List.mem_filterMap.1 mem
    exact (ProgressEvent.ofPhase?_cases reported).2.resolve_right (working.phase_of_mem there)
  cases h with
  | unreadable opts path reason => exact .inr (unreadable_hasFailed opts path reason)
  | fresh opts f => exact .inl (worked (working_fresh opts f))
  | consulted opts f answer => exact .inl (worked (working_consulting opts f answer))

theorem ProgressEvent.file_of_mem_working {name : Bytes} {e : ProgressEvent} (mem : e ∈ working name c) :
    e.file = name := by
  obtain ⟨event, -, reported⟩ := List.mem_filterMap.1 mem
  exact (ofPhase?_cases reported).1

/-! ## Where a row ends up -/

/-- The reports while the artifact of a file is written. -/
def ProgressEvent.emission (name : Bytes) (c : Compilation) : List ProgressEvent :=
  if c.hasFailed then [] else [⟨name, .emit, .working, none, 0⟩, ⟨name, .emit, .done, none, 0⟩]

theorem ProgressEvent.file_of_mem_emission {name : Bytes} {e : ProgressEvent} (mem : e ∈ emission name c) :
    e.file = name := by
  unfold emission at mem
  split at mem
  · cases mem
  · rcases List.mem_cons.1 mem with rfl | last
    · rfl
    · rw [List.mem_singleton.1 last]

theorem RowState.foldl_working {es : List ProgressEvent} (working : ∀ e ∈ es, e.status = .working) {s : RowState}
    (going : s ≠ .failed) : es.foldl RowState.next s ≠ .failed := by
  induction es generalizing s with
  | nil => exact going
  | cons e es ih =>
    refine ih (fun e' mem => working e' (List.mem_cons_of_mem e mem)) ?_
    rw [RowState.next, if_neg going, Row.next?, working e List.mem_cons_self]
    exact RowState.noConfusion

theorem RowState.foldl_reports {j : Job} (h : j.Yields c) {name : Bytes} {last : List ProgressEvent}
    (written : last = [] ∨ last = ProgressEvent.emission name c) :
    (ProgressEvent.queued [name] ++ ProgressEvent.working name c ++ [ProgressEvent.finished name c] ++ last).foldl
      RowState.next .queued = if c.hasFailed then .failed else .done := by
  rw [List.foldl_append, List.foldl_append, List.foldl_append]
  show last.foldl RowState.next
    (((ProgressEvent.working name c).foldl RowState.next .queued).next (.finished name c)) = _
  have reports := h.reports name
  unfold ProgressEvent.emission at written
  unfold ProgressEvent.finished
  cases failed : c.hasFailed with
  | true =>
    rw [failed, if_pos rfl, or_self] at written
    rw [written]
    unfold RowState.next
    split <;> rfl
  | false =>
    rw [failed, Bool.false_eq_true, or_false] at reports
    have going := RowState.foldl_working reports (s := .queued) RowState.noConfusion
    have finished : ((ProgressEvent.working name c).foldl RowState.next .queued).next
        ⟨name, .codegen, if false then .error else .done, none, 0⟩ = .done := by
      rw [RowState.next, if_neg going]
      rfl
    rw [failed] at written
    rw [finished]
    rcases written with rfl | rfl <;> rfl

/-! ## Artifacts -/

namespace BuildOutcome

variable {root : Bytes} {f : EmitFormat} {o : BuildOutcome}

theorem events_emitOne {name : Bytes} {c : Compilation} (ok : (o.emitOne root f name c).error = none) :
    o.error = none ∧ (o.emitOne root f name c).events = o.events ++ ProgressEvent.emission name c := by
  unfold emitOne at ok ⊢
  unfold ProgressEvent.emission
  split at ok
  · next stopped =>
    have failed : c.hasFailed = true := stopped.resolve_left (by rw [ok]; exact Bool.false_ne_true)
    rw [if_pos stopped, if_pos failed, List.append_nil]
    exact ⟨ok, rfl⟩
  · next going =>
    rw [if_neg going, if_neg fun failed => going (.inr failed)]
    have before : o.error = none := Option.not_isSome_iff_eq_none.1 fun stopped => going (.inl stopped)
    refine ⟨before, ?_⟩
    dsimp only at ok ⊢
    split at ok
    · rfl
    · cases ok

theorem events_foldl {named : List (Bytes × Compilation)}
    (ok : (named.foldl (fun o p => o.emitOne root f p.1 p.2) o).error = none) :
    o.error = none ∧ (named.foldl (fun o p => o.emitOne root f p.1 p.2) o).events =
      o.events ++ named.flatMap fun p => ProgressEvent.emission p.1 p.2 := by
  induction named generalizing o with
  | nil => exact ⟨ok, (List.append_nil o.events).symm⟩
  | cons first named ih =>
    obtain ⟨one, later⟩ := ih ok
    obtain ⟨before, now⟩ := events_emitOne one
    refine ⟨before, later.trans ?_⟩
    rw [now, List.append_assoc, List.flatMap_cons]

theorem emitted_of_compiled {target : CompiledTarget} (compiled : o.compiled = some target)
    (built : (o.emitted root f).error = none) : o.error = none ∧
    (∃ after, (o.emitted root f).compiled = some after ∧ after.names = target.names ∧ after.files = target.files) ∧
    ((o.emitted root f).events = o.events ∨
      (o.emitted root f).events = o.events ++
        (target.names.zip target.files).flatMap fun p => ProgressEvent.emission p.1 p.2) := by
  unfold emitted at built ⊢
  rw [compiled] at built ⊢
  dsimp only at built ⊢
  split at built
  · next stopped =>
    rw [if_pos stopped]
    exact ⟨built, ⟨target, compiled, rfl, rfl⟩, .inl rfl⟩
  · next going =>
    rw [if_neg going]
    unfold emitAll at built ⊢
    dsimp only at built ⊢
    split at built
    · next failed =>
      rw [built] at failed
      cases failed
    · next done =>
      rw [if_neg done]
      obtain ⟨before, events⟩ := events_foldl built
      exact ⟨before, ⟨_, rfl, rfl, rfl⟩, .inr events⟩

theorem error_of_emitted (built : (o.emitted root f).error = none) : o.error = none := by
  cases compiled : o.compiled with
  | none =>
    unfold emitted at built
    rwa [compiled] at built
  | some target => exact (emitted_of_compiled compiled built).1

end BuildOutcome

/-! ## Files one after another -/

theorem on_flatMap_zip {names : List Bytes} (distinct : names.Nodup) (length : files.length = names.length)
    {g : Bytes × Compilation → List ProgressEvent} (named : ∀ p, ∀ e ∈ g p, e.file = p.1) {i : Nat} {name : Bytes}
    (here : names[i]? = some name) (found : files[i]? = some c) :
    ProgressEvent.on name ((names.zip files).flatMap g) = g (name, c) := by
  rw [List.flatMap_def]
  refine (Interleaving.flatten _).on distinct ?_ ?_ here ?_
  · rw [List.length_map, List.length_zip, length, Nat.min_self]
  · intro k n part there own e mem
    rw [List.getElem?_map] at own
    obtain ⟨p, zipped, rfl⟩ := Option.map_eq_some_iff.1 own
    have first := (List.getElem?_zip_eq_some.1 zipped).1
    rw [there] at first
    cases first
    exact named p e mem
  · have zipped : (names.zip files)[i]? = some (name, c) := List.getElem?_zip_eq_some.2 ⟨here, found⟩
    rw [List.getElem?_map, zipped]
    rfl

section
variable {names : List Bytes} (distinct : names.Nodup) {files : List Compilation}
  (length : files.length = names.length) {i : Nat} {name : Bytes} {c : Compilation} (here : names[i]? = some name)
  (found : files[i]? = some c)
include distinct length here found

theorem on_queued : ProgressEvent.on name (ProgressEvent.queued names) = ProgressEvent.queued [name] := by
  have each : ProgressEvent.queued names = (names.zip files).flatMap fun p => ProgressEvent.queued [p.1] := by
    calc ProgressEvent.queued names
      _ = ProgressEvent.queued ((names.zip files).map (·.1)) := by rw [List.map_fst_zip (Nat.le_of_eq length.symm)]
      _ = (names.zip files).flatMap fun p => ProgressEvent.queued [p.1] := by
        rw [ProgressEvent.queued, List.map_map, List.map_eq_flatMap]
        rfl
  rw [each]
  refine on_flatMap_zip distinct length (fun p e mem => ?_) here found
  rw [List.mem_singleton.1 mem]

theorem on_finished : ProgressEvent.on name ((names.zip files).map fun p => ProgressEvent.finished p.1 p.2) =
    [ProgressEvent.finished name c] := by
  rw [List.map_eq_flatMap]
  refine on_flatMap_zip distinct length (fun p e mem => ?_) here found
  rw [List.mem_singleton.1 mem]
  rfl

theorem on_emission : ProgressEvent.on name ((names.zip files).flatMap fun p => ProgressEvent.emission p.1 p.2) =
    ProgressEvent.emission name c :=
  on_flatMap_zip distinct length (fun _ _ mem => ProgressEvent.file_of_mem_emission mem) here found

end

/-! ## Files side by side -/

/-- The name that phases of the file at a path are reported under: that of the last source that the path is of, or
the path if there is none. -/
def reportName (workDir base : Bytes) (sources : List Bytes) (path : Bytes) : Bytes :=
  match sources.reverse.find? fun source => source ≠ [] ∧ Path.clean source = path with
  | some source => displayName workDir source base
  | none => path

/-- The reports that are made of phases as they come. -/
def ProgressEvent.observed (name : Bytes → Bytes) (es : List Phase.Event) : List ProgressEvent :=
  es.filterMap fun e => ofPhase? (name e.file) e

/-- Each source of a target has at its place what its compilation can end with. -/
structure Results (t : FileTree) (r : BuildRequest) (sources : List Bytes) (files : List Compilation) : Prop where
  listed : ∃ isDir, t.targetSources r.target = .ok (sources, isDir)
  length : files.length = sources.length
  each : ∀ (i : Nat) path, sources[i]? = some path → ∃ fs loaded c,
    LoadedFrom t fs path loaded ∧ files[i]? = some c ∧ Job.Yields ⟨r.options, loaded⟩ c

/-- A target whose files are compiled side by side. All files wait at first, the reports on their phases come in any
order, and in the end the files are finished one after another. -/
structure SideBySide (t : FileTree) (r : BuildRequest) (sources : List Bytes) (files : List Compilation)
    (o : BuildOutcome) : Prop where
  results : Results t r sources files
  compiled : ∃ target, o.compiled = some target ∧ target.names = displayNames t.workDir r.base sources ∧
    target.files = files
  events : ∃ phases, Interleaving (files.map Compilation.events) phases ∧
    o.events = ProgressEvent.queued (displayNames t.workDir r.base sources) ++
      ProgressEvent.observed (reportName t.workDir r.base sources) phases ++
      ((displayNames t.workDir r.base sources).zip files).map fun p => ProgressEvent.finished p.1 p.2

/-- A source is reported under the name that it is listed with. -/
theorem reportName_of_mem {target : Bytes} {sources : List Bytes} {isDir : Bool}
    (listed : t.targetSources target = .ok (sources, isDir)) {path : Bytes} (mem : path ∈ sources) (some : path ≠ [])
    (workDir base : Bytes) : reportName workDir base sources (Path.clean path) = displayName workDir path base := by
  unfold reportName
  split
  · next source found =>
    have chosen := List.find?_some found
    have mem' := List.mem_reverse.1 (List.mem_of_find?_eq_some found)
    rw [FileTree.targetSources_clean_injective listed mem' mem (of_decide_eq_true chosen).2]
  · next none =>
    exact absurd (decide_eq_true ⟨some, rfl⟩) (List.find?_eq_none.1 none path (List.mem_reverse.2 mem))

theorem observed_of_file {name : Bytes → Bytes} {n : Bytes} {es : List Phase.Event}
    (one : ∀ e ∈ es, name e.file = n) : ProgressEvent.observed name es = es.filterMap (ProgressEvent.ofPhase? n) := by
  unfold ProgressEvent.observed
  induction es with
  | nil => rfl
  | cons e es ih =>
    rw [List.filterMap_cons, List.filterMap_cons, one e List.mem_cons_self,
      ih fun later mem => one later (List.mem_cons_of_mem e mem)]

theorem observed_events (name : Bytes → Bytes) (c : Compilation) :
    ProgressEvent.observed name c.events = ProgressEvent.working (name c.path) c :=
  observed_of_file fun _ mem => congrArg name (file_of_mem_events mem)

section
variable {t : FileTree} (regular : t.Regular) {r : BuildRequest} {sources : List Bytes} {files : List Compilation}
  {o : BuildOutcome}
include regular

theorem Results.names (h : Results t r sources files) :
    (displayNames t.workDir r.base sources).Nodup ∧
      (∀ name ∈ displayNames t.workDir r.base sources, name ≠ []) ∧
      files.length = (displayNames t.workDir r.base sources).length := by
  obtain ⟨isDir, listed⟩ := h.listed
  obtain ⟨all, distinct⟩ := regular.nodup_displayNames listed r.base
  refine ⟨distinct, fun name mem => ?_, by rw [h.length, all, List.length_map]⟩
  rw [all] at mem
  obtain ⟨path, -, rfl⟩ := List.mem_map.1 mem
  exact displayName_ne_nil regular.rooted path

variable {i : Nat}

theorem Results.result (h : Results t r sources files) {name : Bytes}
    (here : (displayNames t.workDir r.base sources)[i]? = some name) :
    ∃ j c, files[i]? = some c ∧ Job.Yields j c ∧ reportName t.workDir r.base sources c.path = name := by
  obtain ⟨isDir, listed⟩ := h.listed
  obtain ⟨all, -⟩ := regular.nodup_displayNames listed r.base
  rw [all, List.getElem?_map] at here
  obtain ⟨path, there, rfl⟩ := Option.map_eq_some_iff.1 here
  obtain ⟨fs, loaded, c, origin, found, yields⟩ := h.each i path there
  have mem := List.mem_of_getElem? there
  refine ⟨_, c, found, yields, ?_⟩
  rw [yields.path_of_loaded origin, reportName_of_mem listed mem ((regular.nodup_targetSources listed).2 path mem)]

theorem Results.on_observed (h : Results t r sources files) {phases : List Phase.Event}
    (mixed : Interleaving (files.map Compilation.events) phases) {name : Bytes} {c : Compilation}
    (here : (displayNames t.workDir r.base sources)[i]? = some name) (found : files[i]? = some c) :
    ProgressEvent.on name (ProgressEvent.observed (reportName t.workDir r.base sources) phases) =
      ProgressEvent.working name c := by
  obtain ⟨distinct, -, length⟩ := h.names regular
  have own (k : Nat) (n : Bytes) (c : Compilation) (there : (displayNames t.workDir r.base sources)[k]? = some n)
      (found : files[k]? = some c) :
      c.events.filterMap (fun e => ProgressEvent.ofPhase? (reportName t.workDir r.base sources e.file) e) =
        ProgressEvent.working n c := by
    obtain ⟨j, c', found', -, named⟩ := h.result regular there
    rw [found] at found'
    cases found'
    exact named ▸ observed_events _ c
  refine (mixed.filterMap _).on distinct ?_ ?_ here ?_
  · rw [List.length_map, List.length_map, length]
  · intro k n part there part' e mem
    rw [List.getElem?_map, List.getElem?_map] at part'
    obtain ⟨events, reported, rfl⟩ := Option.map_eq_some_iff.1 part'
    obtain ⟨c, found, rfl⟩ := Option.map_eq_some_iff.1 reported
    rw [own k n c there found] at mem
    exact ProgressEvent.file_of_mem_working mem
  · rw [List.getElem?_map, List.getElem?_map, found, Option.map_some, Option.map_some, own i name c here found]

theorem SideBySide.on_emitted (h : SideBySide t r sources files o) {f : EmitFormat} {root : Bytes}
    (built : (o.emitted root f).error = none) {name : Bytes} {c : Compilation}
    (here : (displayNames t.workDir r.base sources)[i]? = some name) (found : files[i]? = some c) :
    ∃ last, (last = [] ∨ last = ProgressEvent.emission name c) ∧
      ProgressEvent.on name (o.emitted root f).events =
        ProgressEvent.queued [name] ++ ProgressEvent.working name c ++ [ProgressEvent.finished name c] ++ last := by
  have append (es es' : List ProgressEvent) : ProgressEvent.on name (es ++ es') =
      ProgressEvent.on name es ++ ProgressEvent.on name es' := List.filter_append es es'
  obtain ⟨distinct, -, length⟩ := h.results.names regular
  obtain ⟨target, compiled, names, results⟩ := h.compiled
  obtain ⟨phases, mixed, events⟩ := h.events
  have before : ProgressEvent.on name o.events =
      ProgressEvent.queued [name] ++ ProgressEvent.working name c ++ [ProgressEvent.finished name c] := by
    rw [events, append, append, on_queued distinct length here found, h.results.on_observed regular mixed here found,
      on_finished distinct length here found]
  obtain ⟨-, -, same | more⟩ := BuildOutcome.emitted_of_compiled compiled built
  · exact ⟨[], .inl rfl, by rw [same, before, List.append_nil]⟩
  · refine ⟨_, .inr rfl, ?_⟩
    rw [more, names, results, append, before, on_emission distinct length here found]

theorem SideBySide.states (h : SideBySide t r sources files o) {f : EmitFormat} {root : Bytes}
    (built : (o.emitted root f).error = none) :
    ((Board.ofNames (displayNames t.workDir r.base sources)).applyAll (o.emitted root f).events).rows.map (·.state) =
      files.map fun c => if c.hasFailed then .failed else .done := by
  obtain ⟨distinct, nonempty, length⟩ := h.results.names regular
  rw [Board.states_ofNames distinct nonempty]
  refine List.ext_getElem? fun i => ?_
  rw [List.getElem?_map, List.getElem?_map]
  cases here : (displayNames t.workDir r.base sources)[i]? with
  | none =>
    have behind : files.length ≤ i := length ▸ List.getElem?_eq_none_iff.1 here
    rw [List.getElem?_eq_none behind]
    rfl
  | some name =>
    obtain ⟨j, c, found, yields, -⟩ := h.results.result regular here
    obtain ⟨last, written, reports⟩ := h.on_emitted regular built here found
    rw [found, Option.map_some, Option.map_some, reports, RowState.foldl_reports yields written]

end

/-! ## One order of the reports -/

theorem observed_flatten {name : Bytes → Bytes} {names : List Bytes} (length : files.length = names.length)
    (named : ∀ p ∈ names.zip files, name p.2.path = p.1) :
    ProgressEvent.observed name (files.map Compilation.events).flatten =
      (names.zip files).flatMap fun p => ProgressEvent.working p.1 p.2 := by
  calc ProgressEvent.observed name (files.map Compilation.events).flatten
    _ = files.flatMap fun c => ProgressEvent.working (name c.path) c := by
      rw [ProgressEvent.observed, List.filterMap_flatten, List.map_map, List.flatMap_def]
      exact congrArg List.flatten (List.map_congr_left fun c _ => observed_events name c)
    _ = (names.zip files).flatMap fun p => ProgressEvent.working (name p.2.path) p.2 := by
      rw [← List.map_snd_zip (Nat.le_of_eq length), List.flatMap_map, List.map_snd_zip (Nat.le_of_eq length)]
    _ = (names.zip files).flatMap fun p => ProgressEvent.working p.1 p.2 := by
      rw [List.flatMap_def, List.flatMap_def]
      exact congrArg List.flatten (List.map_congr_left fun p mem => by rw [named p mem])

/-- Compiling files one after another is a way to compile them side by side. -/
theorem Results.sideBySide (regular : t.Regular) {sources : List Bytes} {o : BuildOutcome}
    (h : Results t r sources files)
    (compiled : ∃ target, o.compiled = some target ∧ target.names = displayNames t.workDir r.base sources ∧
      target.files = files)
    (events : o.events = FileTree.progressOf (displayNames t.workDir r.base sources) files) :
    SideBySide t r sources files o := by
  refine ⟨h, compiled, _, .flatten _, events.trans ?_⟩
  rw [observed_flatten (h.names regular).2.2 fun p mem => ?_]
  · rfl
  · obtain ⟨i, zipped⟩ := List.mem_iff_getElem?.1 mem
    obtain ⟨here, found⟩ := List.getElem?_zip_eq_some.1 zipped
    obtain ⟨j, c, found', -, named⟩ := h.result regular here
    rw [found] at found'
    cases found'
    exact named

theorem compileTarget_sideBySide (regular : t.Regular) (ok : (t.compileTarget r).error = none) :
    ∃ sources files, SideBySide t r sources files (t.compileTarget r) := by
  unfold FileTree.compileTarget at ok ⊢
  cases listed : t.targetSources r.target with
  | error e =>
    rw [listed] at ok
    cases ok
  | ok target =>
    obtain ⟨sources, isDir⟩ := target
    rw [listed] at ok
    dsimp only at ok ⊢
    cases isDir with
    | true =>
      rw [if_pos rfl]
      obtain ⟨loaded, each⟩ := @load_each t { base := r.target } sources
      obtain ⟨length, yields⟩ := compileAll_yields t r.options r.cacheDir? (t.load { base := r.target } sources).2
      refine ⟨sources, (t.compileDirectory r.options r.cacheDir? r.target sources).1.files,
        Results.sideBySide regular ⟨⟨true, listed⟩, length.trans loaded, fun i path here => ?_⟩ ⟨_, rfl, rfl, rfl⟩ rfl⟩
      obtain ⟨source, found, origin⟩ := each i path here
      obtain ⟨c, outcome, yields⟩ := yields i source found
      exact ⟨_, source, c, origin, outcome, yields⟩
    | false =>
      rw [if_neg Bool.false_ne_true] at ok ⊢
      cases outcome : t.compile r.options r.cacheDir? r.target with
      | error e =>
        rw [outcome] at ok
        cases ok
      | ok result =>
        obtain ⟨fs, c, t'⟩ := result
        obtain ⟨loaded, origin, yields⟩ := compile_yields outcome
        obtain ⟨-, ⟨-, rfl⟩ | ⟨other, -⟩⟩ := FileTree.targetSources_cases listed
        · refine ⟨[r.target], [c], Results.sideBySide regular ⟨⟨false, listed⟩, rfl, fun i path here => ?_⟩
            ⟨_, rfl, rfl, rfl⟩ rfl⟩
          cases i with
          | zero =>
            cases here
            exact ⟨fs, loaded, c, origin, rfl, yields⟩
          | succ i => cases here
        · cases other

theorem build_sideBySide (regular : t.Regular) (ok : (t.build r).error = none) :
    ∃ sources files o f, SideBySide t r sources files o ∧ t.build r = o.emitted (outputRoot r) f := by
  unfold FileTree.build at ok ⊢
  split at ok
  · cases ok
  · next f _ =>
    obtain ⟨sources, files, run⟩ := compileTarget_sideBySide regular (BuildOutcome.error_of_emitted ok)
    exact ⟨sources, files, _, f, run, rfl⟩

/-- The states of the rows when everything was reported. -/
def BuildOutcome.states (o : BuildOutcome) (names : List Bytes) : List RowState :=
  ((Board.ofNames names).applyAll o.events).rows.map (·.state)

/-- Whatever the order of the reports on phases, a build without an error leaves a row for each file, which is failed if
the result of the file says so and done otherwise; so two orders leave the same. The build that is run is one of these,
with its own results. In a tree where names could stand for two files a row would be that of both; no tree that becomes
of a regular one by changes and builds is such. -/
theorem progress_settles {t : FileTree} (regular : t.Regular) (r : BuildRequest) :
    (∀ sources files o f, SideBySide t r sources files o → (o.emitted (outputRoot r) f).error = none →
      (o.emitted (outputRoot r) f).states (displayNames t.workDir r.base sources) =
        files.map (fun c => if c.hasFailed then .failed else .done) ∧
      ∀ o', SideBySide t r sources files o' → (o'.emitted (outputRoot r) f).error = none →
        (o'.emitted (outputRoot r) f).states (displayNames t.workDir r.base sources) =
          (o.emitted (outputRoot r) f).states (displayNames t.workDir r.base sources)) ∧
    ((t.build r).error = none → ∃ sources o f target, SideBySide t r sources target.files o ∧
      t.build r = o.emitted (outputRoot r) f ∧ (t.build r).compiled = some target ∧
      target.names = displayNames t.workDir r.base sources) ∧
    ∀ t', t.Later t' → t'.Regular := by
  refine ⟨fun sources files o f run built => ?_, fun ok => ?_, fun t' later => regular.later later⟩
  · have settled := run.states regular built
    exact ⟨settled, fun o' run' built' => (run'.states regular built').trans settled.symm⟩
  · obtain ⟨sources, files, o, f, run, same⟩ := build_sideBySide regular ok
    obtain ⟨target, compiled, names, results⟩ := run.compiled
    rw [same] at ok ⊢
    obtain ⟨-, ⟨after, still, names', results'⟩, -⟩ := BuildOutcome.emitted_of_compiled compiled ok
    exact ⟨sources, o, f, after, results' ▸ results ▸ run, rfl, still, names'.trans names⟩

private theorem danglingTree_regular : danglingTree.Regular := ⟨by decide, by decide, by decide⟩

private def danglingRequest : BuildRequest := { target := "." }

private theorem danglingTree_targetSources :
    danglingTree.targetSources danglingRequest.target = .ok (danglingSources, true) := by
  have stat : danglingTree.stat "." = .ok .directory := by
    have steps : danglingTree.place true "." = danglingTree.walk true FileTree.maxLinks [] [Bytes.ofString "."] := rfl
    unfold FileTree.stat FileTree.lookup
    rw [steps, FileTree.walk, if_pos (.inr rfl), FileTree.walk]
    rfl
  unfold FileTree.targetSources
  rw [show danglingRequest.target = Bytes.ofString "." from rfl, if_neg (by decide), stat, danglingTree_sources]
  rfl

private def danglingFile : SourceFile :=
  { id := 0, path := "b.rano", content := "1;", lineFeeds := [], hash := Sha256.hash "1;" }

private theorem danglingCompiled_failed :
    danglingCompiled.files.map (fun c => if c.hasFailed then RowState.failed else .done) = [.failed, .done] := by
  obtain ⟨path, reason, loaded⟩ : ∃ path reason,
      (danglingTree.load { base := "." } danglingSources).2 = [.failed path reason, .file danglingFile] := by
    unfold danglingSources FileTree.load
    rw [danglingTree_read.1]
    unfold FileTree.load
    rw [danglingTree_read.2]
    exact ⟨_, _, rfl⟩
  have file : (fresh {} danglingFile).hasFailed = false := by decide +kernel
  have files : danglingCompiled.files = [.unreadable {} path reason, .fresh {} danglingFile] := by
    show (danglingTree.compileAll {} none (danglingTree.load { base := "." } danglingSources).2).1 = _
    rw [compileAll_none, loaded]
    rfl
  rw [files, List.map_cons, List.map_singleton, unreadable_hasFailed, file]
  rfl

private theorem danglingTree_build :
    (danglingTree.build danglingRequest).error = none ∧
      (danglingTree.build danglingRequest).compiled.map (·.files) = some danglingCompiled.files := by
  unfold FileTree.build FileTree.compileTarget
  rw [danglingTree_targetSources]
  exact ⟨rfl, rfl⟩

theorem dangling_build_settles :
    danglingTree.Regular ∧ (danglingTree.build danglingRequest).error = none ∧
      (danglingTree.build danglingRequest).states danglingSources = [.failed, .done] := by
  obtain ⟨ok, results⟩ := danglingTree_build
  refine ⟨danglingTree_regular, ok, ?_⟩
  obtain ⟨settle, run, -⟩ := progress_settles danglingTree_regular danglingRequest
  obtain ⟨sources, o, f, target, side, same, compiled, -⟩ := run ok
  obtain ⟨isDir, listed⟩ := side.results.listed
  obtain rfl : danglingSources = sources :=
    congrArg Prod.fst (Except.ok.inj (danglingTree_targetSources.symm.trans listed))
  rw [compiled] at results
  have files : target.files = danglingCompiled.files := Option.some.inj results
  have states := (settle danglingSources target.files o f side (same ▸ ok)).1
  have names : displayNames danglingTree.workDir danglingRequest.base danglingSources = danglingSources := by
    decide +kernel
  rwa [← same, names, files, danglingCompiled_failed] at states

end LetStack
