import LetStack.Build.Board

/-!
`Board.apply` moves the row of the reported file alone, if names are different: after any reports a row is where those
on its file lead (`Board.rows_applyAll`, `Board.states_ofNames`).
-/

namespace LetStack

/-- The state after a report. A file that has failed stays failed. -/
def RowState.next (s : RowState) (e : ProgressEvent) : RowState :=
  if s = .failed then .failed else (Row.next? e).getD s

def ProgressEvent.on (name : Bytes) (es : List ProgressEvent) : List ProgressEvent := es.filter (·.file = name)

namespace Row

/-- The row after a report on its file. -/
def apply (r : Row) (e : ProgressEvent) : Row := (r.after? e).getD r

theorem name_apply (r : Row) (e : ProgressEvent) : (r.apply e).name = r.name := by
  unfold apply after?
  split
  · rfl
  · cases next? e <;> rfl

theorem state_apply (r : Row) (e : ProgressEvent) : (r.apply e).state = r.state.next e := by
  unfold apply after? RowState.next
  split
  · next failed => exact failed
  · cases next? e <;> rfl

theorem state_foldl (r : Row) (es : List ProgressEvent) :
    (es.foldl apply r).state = es.foldl RowState.next r.state := by
  induction es generalizing r with
  | nil => rfl
  | cons e es ih => rw [List.foldl_cons, ih, state_apply, List.foldl_cons]

end Row

namespace Board

/-- Every row has a name of its own. -/
structure Named (b : Board) : Prop where
  distinct : (b.rows.map (·.name)).Nodup
  nonempty : ∀ r ∈ b.rows, r.name ≠ []

variable {b : Board}

theorem rowOf?_eq_some {name : Bytes} {i : Nat} (h : b.rowOf? name = some i) :
    ∃ r, b.rows[i]? = some r ∧ r.name = name := by
  have named := List.find?_some h
  exact Option.map_eq_some_iff.1 (eq_of_beq named)

theorem rowOf?_eq_none {name : Bytes} (h : b.rowOf? name = none) {r : Row} (mem : r ∈ b.rows) : r.name ≠ name := by
  rintro rfl
  obtain ⟨i, inside, rfl⟩ := List.getElem_of_mem mem
  refine List.find?_eq_none.1 h i (List.mem_reverse.2 (List.mem_range.2 inside)) ?_
  rw [List.getElem?_eq_getElem inside]
  exact beq_self_eq_true _

theorem rows_after {e : ProgressEvent} {i : Nat} {r : Row} (found : b.rowOf? e.file = some i)
    (there : b.rows[i]? = some r) : ((b.after? e).getD b).rows = b.rows.set i (r.apply e) := by
  unfold after? Row.apply
  rw [found]
  simp only [bind, Option.bind, there]
  cases r.after? e with
  | none =>
    obtain ⟨inside, rfl⟩ := List.getElem?_eq_some_iff.1 there
    exact (List.set_getElem_self inside).symm
  | some r' => rfl

theorem rows_apply (named : b.Named) (e : ProgressEvent) :
    (b.apply e).rows = b.rows.map fun r => if r.name = e.file then r.apply e else r := by
  have unmoved (others : ∀ r ∈ b.rows, r.name ≠ e.file) :
      b.rows.map (fun r => if r.name = e.file then r.apply e else r) = b.rows :=
    (List.map_congr_left fun r mem => if_neg (others r mem)).trans (List.map_id b.rows)
  unfold Board.apply
  split
  · next whole => exact (unmoved fun r mem same => named.nonempty r mem (same.trans whole)).symm
  · cases found : b.rowOf? e.file with
    | none =>
      unfold after?
      rw [found]
      exact (unmoved fun r mem => rowOf?_eq_none found mem).symm
    | some i =>
      obtain ⟨r, there, name⟩ := rowOf?_eq_some found
      obtain ⟨inside, -⟩ := List.getElem?_eq_some_iff.1 there
      rw [rows_after found there]
      refine List.ext_getElem? fun k => ?_
      rw [List.getElem?_map]
      by_cases same : i = k
      · subst same
        rw [List.getElem?_set_self inside, there, Option.map_some, if_pos name]
      · rw [List.getElem?_set_ne same]
        cases other : b.rows[k]? with
        | none => rfl
        | some r' =>
          -- the name of the file is that of one row only
          have different : r'.name ≠ e.file := by
            intro name'
            refine same ((List.getElem?_inj (by rwa [List.length_map]) named.distinct).1 ?_)
            rw [List.getElem?_map, List.getElem?_map, there, other, Option.map_some, Option.map_some, name, name']
          rw [Option.map_some, if_neg different]

theorem Named.apply (named : b.Named) (e : ProgressEvent) : (b.apply e).Named := by
  have name (r : Row) : (if r.name = e.file then r.apply e else r).name = r.name := by
    split
    · exact r.name_apply e
    · rfl
  constructor
  · rw [rows_apply named, List.map_map]
    exact (List.map_congr_left fun r _ => name r) ▸ named.distinct
  · rw [rows_apply named]
    intro r mem
    obtain ⟨before, there, rfl⟩ := List.mem_map.1 mem
    rw [name]
    exact named.nonempty before there

theorem rows_applyAll (named : b.Named) (es : List ProgressEvent) :
    (b.applyAll es).rows = b.rows.map fun r => (ProgressEvent.on r.name es).foldl Row.apply r := by
  induction es generalizing b with
  | nil => exact (List.map_id b.rows).symm
  | cons e es ih =>
    show ((b.apply e).applyAll es).rows = _
    rw [ih (named.apply e), rows_apply named, List.map_map]
    refine List.map_congr_left fun r _ => ?_
    dsimp only [Function.comp]
    by_cases here : r.name = e.file
    · have on : ProgressEvent.on r.name (e :: es) = e :: ProgressEvent.on r.name es :=
        List.filter_cons_of_pos (decide_eq_true here.symm)
      rw [if_pos here, r.name_apply, on, List.foldl_cons]
    · have off : ProgressEvent.on r.name (e :: es) = ProgressEvent.on r.name es :=
        List.filter_cons_of_neg (by simpa using fun same => here same.symm)
      rw [if_neg here, off]

theorem named_ofNames {names : List Bytes} (distinct : names.Nodup) (nonempty : ∀ name ∈ names, name ≠ []) :
    (ofNames names).Named := by
  refine ⟨?_, fun r mem => ?_⟩
  · rw [ofNames, List.map_map]
    exact (List.map_id names).symm ▸ distinct
  · obtain ⟨name, there, rfl⟩ := List.mem_map.1 mem
    exact nonempty name there

theorem states_ofNames {names : List Bytes} (distinct : names.Nodup) (nonempty : ∀ name ∈ names, name ≠ [])
    (es : List ProgressEvent) : ((ofNames names).applyAll es).rows.map (·.state) =
      names.map fun name => (ProgressEvent.on name es).foldl RowState.next .queued := by
  rw [rows_applyAll (named_ofNames distinct nonempty), ofNames, List.map_map, List.map_map]
  exact List.map_congr_left fun name _ => Row.state_foldl _ _

end Board

end LetStack
