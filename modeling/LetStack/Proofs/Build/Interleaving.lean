import LetStack.Proofs.Build.Rows

/-!
`Interleaving` merges the reports on several files in any order that keeps the order of those on one file
(`Interleaving.on`).
-/

namespace LetStack

/-- Lists are taken from one element at a time, from any of them, until all are empty. -/
inductive Interleaving {α : Type} : List (List α) → List α → Prop
  | done {parts : List (List α)} : (∀ part ∈ parts, part = []) → Interleaving parts []
  | step {parts : List (List α)} {whole part : List α} {i : Nat} {a : α} : parts[i]? = some (a :: part) →
      Interleaving (parts.set i part) whole → Interleaving parts (a :: whole)

namespace Interleaving

variable {α β : Type} {parts : List (List α)} {whole : List α}

theorem cons_nil (h : Interleaving parts whole) : Interleaving ([] :: parts) whole := by
  induction h with
  | done empty =>
    refine .done fun part mem => ?_
    rcases List.mem_cons.1 mem with rfl | later
    · rfl
    · exact empty part later
  | @step _ _ _ i _ found _ ih => exact .step (i := i + 1) found ih

theorem flatten (parts : List (List α)) : Interleaving parts parts.flatten := by
  induction parts with
  | nil => exact .done fun part mem => absurd mem List.not_mem_nil
  | cons part parts ih =>
    induction part with
    | nil => exact ih.cons_nil
    | cons a part ih' => exact .step (i := 0) rfl ih'

theorem filterMap (h : Interleaving parts whole) (g : α → Option β) :
    Interleaving (parts.map (·.filterMap g)) (whole.filterMap g) := by
  induction h with
  | done empty =>
    refine .done fun part mem => ?_
    obtain ⟨own, there, rfl⟩ := List.mem_map.1 mem
    rw [empty own there]
    rfl
  | @step parts whole part i a found _ ih =>
    have here : (parts.map (·.filterMap g))[i]? = some ((a :: part).filterMap g) := by
      rw [List.getElem?_map, found]
      rfl
    rw [List.map_set] at ih
    cases image : g a with
    | none =>
      rw [List.filterMap_cons_none image] at here ⊢
      obtain ⟨inside, same⟩ := List.getElem?_eq_some_iff.1 here
      rwa [← same, List.set_getElem_self] at ih
    | some b =>
      rw [List.filterMap_cons_some image] at here ⊢
      exact .step here ih

theorem filter_eq (h : Interleaving parts whole) {p : α → Bool} {i : Nat} {own : List α} (here : parts[i]? = some own)
    (mine : ∀ a ∈ own, p a = true)
    (others : ∀ (k : Nat) part, k ≠ i → parts[k]? = some part → ∀ a ∈ part, p a = false) : whole.filter p = own := by
  induction h generalizing own with
  | done empty => exact (empty own (List.mem_of_getElem? here)).symm
  | @step parts whole part k a found _ ih =>
    obtain ⟨inside, -⟩ := List.getElem?_eq_some_iff.1 found
    -- the other lists are the same, or shorter
    have rest (j : Nat) (part' : List α) (other : j ≠ i) (there : (parts.set k part)[j]? = some part') :
        ∀ b ∈ part', p b = false := by
      by_cases same : k = j
      · subst same
        rw [List.getElem?_set_self inside] at there
        cases there
        exact fun b mem => others k (a :: part) other found b (List.mem_cons_of_mem a mem)
      · rw [List.getElem?_set_ne same] at there
        exact others j part' other there
    by_cases same : k = i
    · subst same
      rw [found] at here
      cases here
      rw [List.filter_cons_of_pos (mine a List.mem_cons_self)]
      exact congrArg (a :: ·) (ih (List.getElem?_set_self inside)
        (fun b mem => mine b (List.mem_cons_of_mem a mem)) rest)
    · have other : p a = false := others k (a :: part) same found a List.mem_cons_self
      rw [List.filter_cons_of_neg (Bool.eq_false_iff.1 other)]
      exact ih (by rw [List.getElem?_set_ne same, here]) mine rest

theorem on {parts : List (List ProgressEvent)} {whole : List ProgressEvent} (h : Interleaving parts whole)
    {names : List Bytes} (distinct : names.Nodup) (length : parts.length = names.length)
    (named : ∀ (k : Nat) name part, names[k]? = some name → parts[k]? = some part → ∀ e ∈ part, e.file = name)
    {i : Nat} {name : Bytes} {part : List ProgressEvent} (here : names[i]? = some name) (own : parts[i]? = some part) :
    ProgressEvent.on name whole = part := by
  refine h.filter_eq own (fun e mem => decide_eq_true (named i name part here own e mem)) ?_
  intro k part' other there e mem
  obtain ⟨inside, -⟩ := List.getElem?_eq_some_iff.1 there
  rw [length] at inside
  have theirs : names[k]? = some names[k] := List.getElem?_eq_getElem inside
  refine decide_eq_false fun same => other ((List.getElem?_inj inside distinct).1 ?_)
  rw [theirs, here, ← named k names[k] part' theirs there e mem, same]

end Interleaving

end LetStack
