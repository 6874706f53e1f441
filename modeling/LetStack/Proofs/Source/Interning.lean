import Mathlib.Data.Finset.Card
import Mathlib.Data.UInt
import LetStack.Source.Interner

/-!
Runs of calls of `Interner.intern`. A call finds the number of its text in the index or gives it the next one
(`intern_cases`). No text has two numbers (`nodup_texts`), a number never changes its text
(`lookup?_internAll_of_some`), and every number is 0 or was returned by a call (`lookupWord?_of_internAll`). As long
as there are no more texts than words, `Interner.internWord` returns the number itself (`lookupWord?_internAll`).
-/

namespace LetStack.Interner

/-! ## One call -/

theorem intern_cases (t : Interner) (s : Bytes) :
    (∃ id, t.lookup? id = some s ∧ t.intern s = (id, t)) ∨
      ((∀ id, t.lookup? id ≠ some s) ∧ (t.intern s).1 = t.size ∧ (t.intern s).2.texts = t.texts.push s) := by
  unfold intern
  split
  · next id known => exact .inl ⟨id, (t.inverse s id).1 known, rfl⟩
  · next new =>
    refine .inr ⟨fun id found => ?_, rfl, rfl⟩
    cases new.symm.trans ((t.inverse s id).2 found)

theorem lookup?_intern (t : Interner) (s : Bytes) : (t.intern s).2.lookup? (t.intern s).1 = some s := by
  rcases t.intern_cases s with ⟨id, known, call⟩ | ⟨-, number, texts⟩
  · rw [call]
    exact known
  · rw [lookup?, number, texts]
    exact Array.getElem?_push_size

variable {t : Interner} {s : Bytes} {calls : List Bytes}

theorem lookup?_intern_of_some {id : StringId} (new : Bytes) (h : t.lookup? id = some s) :
    (t.intern new).2.lookup? id = some s := by
  rcases t.intern_cases new with ⟨number, -, call⟩ | ⟨-, -, texts⟩
  · rw [call]
    exact h
  · obtain ⟨hid, hs⟩ := Array.getElem?_eq_some_iff.1 h
    rw [lookup?, texts, Array.getElem?_push_lt hid, hs]

theorem lookup?_of_intern {new : Bytes} {id : StringId} (h : (t.intern new).2.lookup? id = some s) :
    t.lookup? id = some s ∨ (s = new ∧ id = (t.intern new).1) := by
  rcases t.intern_cases new with ⟨number, -, call⟩ | ⟨-, number, texts⟩
  · rw [call] at h
    exact .inl h
  · rw [lookup?, texts, Array.getElem?_push] at h
    split at h
    · next last => exact .inr ⟨(Option.some.inj h).symm, last.trans number.symm⟩
    · exact .inl h

/-- Numbers and texts belong together one to one. -/
theorem number_eq_iff {id id' : StringId} {s' : Bytes} (first : t.lookup? id = some s)
    (second : t.lookup? id' = some s') : id = id' ↔ s = s' := by
  constructor
  · rintro rfl
    exact Option.some.inj (first.symm.trans second)
  · rintro rfl
    have number := (t.inverse s id).2 first
    exact Option.some.inj (number.symm.trans ((t.inverse s id').2 second))

theorem nodup_texts (t : Interner) : t.texts.toList.Nodup := by
  have found (i : Fin t.texts.toList.length) : t.lookup? i = some t.texts.toList[i] := by
    rw [lookup?, ← Array.getElem?_toList]
    exact List.getElem?_eq_getElem i.isLt
  rw [List.nodup_iff_injective_getElem]
  intro i j same
  exact Fin.ext ((number_eq_iff (found i) (found j)).2 same)

theorem mem_texts_iff : s ∈ t.texts.toList ↔ ∃ id, t.lookup? id = some s := by
  rw [List.mem_iff_getElem?]
  simp only [Array.getElem?_toList, lookup?]

theorem lt_size_of_lookup? {id : StringId} (h : t.lookup? id = some s) : id < t.size :=
  (Array.getElem?_eq_some_iff.1 h).1

theorem lookupWord?_ofNat {id : StringId} (room : t.size ≤ UInt32.size) (h : t.lookup? id = some s) :
    t.lookupWord? (.ofNat id) = some s := by
  rw [lookupWord?, UInt32.toNat_ofNat_of_lt' (Nat.lt_of_lt_of_le (lt_size_of_lookup? h) room)]
  exact h

theorem word_eq_iff {id id' : UInt32} {s' : Bytes} (first : t.lookupWord? id = some s)
    (second : t.lookupWord? id' = some s') : id = id' ↔ s = s' := by
  rw [← UInt32.toNat_inj]
  exact number_eq_iff first second

/-! ## Runs of calls -/

/-- The words that calls for the texts return, one after another, and the interner behind the last call. -/
def internAll (t : Interner) : List Bytes → List UInt32 × Interner
  | [] => ([], t)
  | s :: calls =>
    let call := t.internWord s
    let later := call.2.internAll calls
    (call.1 :: later.1, later.2)

theorem length_internAll (t : Interner) (calls : List Bytes) : (t.internAll calls).1.length = calls.length := by
  induction calls generalizing t with
  | nil => rfl
  | cons s calls ih => exact congrArg (· + 1) (ih _)

theorem lookup?_internAll_of_some {id : StringId} (h : t.lookup? id = some s) (calls : List Bytes) :
    (t.internAll calls).2.lookup? id = some s := by
  induction calls generalizing t with
  | nil => exact h
  | cons new calls ih => exact ih (lookup?_intern_of_some new h)

/-- What a call returns stands for its text behind all calls, if these leave room for words. -/
theorem lookupWord?_internAll (room : (t.internAll calls).2.size ≤ UInt32.size) {p : Bytes × UInt32}
    (h : p ∈ calls.zip (t.internAll calls).1) : (t.internAll calls).2.lookupWord? p.2 = some p.1 := by
  induction calls generalizing t with
  | nil => cases h
  | cons s calls ih =>
    rcases List.mem_cons.1 h with rfl | later
    · have returned : (t.internAll (s :: calls)).2.lookup? (t.intern s).1 = some s :=
        lookup?_internAll_of_some (t.lookup?_intern s) calls
      exact lookupWord?_ofNat room returned
    · exact ih room later

theorem lookupWord?_of_internAll {id : UInt32} (h : (t.internAll calls).2.lookupWord? id = some s) :
    t.lookupWord? id = some s ∨ (s, id) ∈ calls.zip (t.internAll calls).1 := by
  induction calls generalizing t with
  | nil => exact .inl h
  | cons new calls ih =>
    rcases ih h with first | later
    · rcases lookup?_of_intern first with known | ⟨rfl, number⟩
      · exact .inl known
      · have word : id = (t.internWord s).1 := by
          rw [internWord, ← number, UInt32.ofNat_toNat]
        exact .inr (word ▸ List.mem_cons_self ..)
    · exact .inr (List.mem_cons_of_mem _ later)

theorem mem_texts_intern {new : Bytes} : s ∈ (t.intern new).2.texts.toList ↔ s ∈ t.texts.toList ∨ s = new := by
  rw [mem_texts_iff, mem_texts_iff]
  constructor
  · rintro ⟨id, found⟩
    exact (lookup?_of_intern found).imp (fun known => ⟨id, known⟩) And.left
  · rintro (⟨id, known⟩ | rfl)
    · exact ⟨id, lookup?_intern_of_some new known⟩
    · exact ⟨_, t.lookup?_intern s⟩

theorem mem_texts_internAll : s ∈ (t.internAll calls).2.texts.toList ↔ s ∈ t.texts.toList ∨ s ∈ calls := by
  induction calls generalizing t with
  | nil => exact (or_iff_left (List.not_mem_nil)).symm
  | cons new calls ih =>
    show s ∈ ((t.intern new).2.internAll calls).2.texts.toList ↔ _
    rw [ih, mem_texts_intern, List.mem_cons, or_assoc]

/-! ## From the start -/

theorem lookupWord?_start {id : UInt32} : start.lookupWord? id = some s ↔ id = 0 ∧ s = [] := by
  rw [lookupWord?, lookup?, start, ← UInt32.toNat_inj]
  cases id.toNat with
  | zero => simp [eq_comm]
  | succ id => simp

theorem size_run (calls : List Bytes) :
    (start.internAll calls).2.size = 1 + (calls.filter (· ≠ [])).toFinset.card := by
  have texts : (start.internAll calls).2.texts.toList.toFinset = insert [] (calls.filter (· ≠ [])).toFinset := by
    ext s
    have begin : s ∈ start.texts.toList ↔ s = [] := List.mem_singleton
    rw [List.mem_toFinset, mem_texts_internAll, begin, Finset.mem_insert, List.mem_toFinset, List.mem_filter]
    by_cases empty : s = [] <;> simp [empty]
  have absent : [] ∉ (calls.filter (· ≠ [])).toFinset := by simp
  rw [size, ← Array.length_toList, ← List.toFinset_card_of_nodup (nodup_texts _), texts,
    Finset.card_insert_of_notMem absent, Nat.add_comm]

theorem size_run_le (few : calls.toFinset.card < UInt32.size) : (start.internAll calls).2.size ≤ UInt32.size := by
  have part : (calls.filter (· ≠ [])).toFinset.card ≤ calls.toFinset.card :=
    Finset.card_le_card fun s h => List.mem_toFinset.2 (List.mem_of_mem_filter (List.mem_toFinset.1 h))
  rw [size_run]
  omega

/-- Calls for fewer texts than there are words, and further calls later. Behind the first calls the index leads from a
text to a number exactly if the number stands for the text. Every number that they return stands for the text of its
call, also behind the later ones. Two calls return one number exactly if their texts are equal, number 0 stands for the
empty text and is returned for no other, and a number that no call returned stands for nothing else. There are as many
texts as the calls have texts other than the empty one, and one more. -/
theorem numbers_stand_for_texts (calls more : List Bytes) (few : (calls ++ more).toFinset.card < UInt32.size) :
    let run := start.internAll calls
    let later := (run.2.internAll more).2
    run.1.length = calls.length ∧
    (∀ s (id : UInt32), run.2.index.lookup s = some id.toNat ↔ run.2.lookupWord? id = some s) ∧
    (∀ p ∈ calls.zip run.1, run.2.lookupWord? p.2 = some p.1 ∧ later.lookupWord? p.2 = some p.1) ∧
    (∀ p ∈ calls.zip run.1, ∀ q ∈ calls.zip run.1, p.2 = q.2 ↔ p.1 = q.1) ∧
    later.lookupWord? 0 = some [] ∧ (∀ p ∈ calls.zip run.1, p.2 = 0 ↔ p.1 = []) ∧
    (∀ id s, run.2.lookupWord? id = some s ↔ (id = 0 ∧ s = []) ∨ (s, id) ∈ calls.zip run.1) ∧
    run.2.size = 1 + (calls.filter (· ≠ [])).toFinset.card := by
  intro run later
  have fewer : calls.toFinset.card < UInt32.size := by
    refine Nat.lt_of_le_of_lt (Finset.card_le_card ?_) few
    rw [List.toFinset_append]
    exact Finset.subset_union_left
  have stands : ∀ p ∈ calls.zip run.1, run.2.lookupWord? p.2 = some p.1 :=
    fun p => lookupWord?_internAll (size_run_le fewer)
  have zero : run.2.lookupWord? 0 = some [] := lookup?_internAll_of_some start.reserved calls
  have known (id : UInt32) (s : Bytes) :
      run.2.lookupWord? id = some s ↔ (id = 0 ∧ s = []) ∨ (s, id) ∈ calls.zip run.1 := by
    constructor
    · intro found
      exact (lookupWord?_of_internAll found).imp_left lookupWord?_start.1
    · rintro (⟨rfl, rfl⟩ | returned)
      · exact zero
      · exact stands _ returned
  refine ⟨length_internAll .., fun s id => run.2.inverse s id.toNat, fun p hp => ⟨stands p hp, ?_⟩,
    fun p hp q hq => word_eq_iff (stands p hp) (stands q hq), lookup?_internAll_of_some zero more,
    fun p hp => word_eq_iff (stands p hp) zero, known, size_run calls⟩
  exact lookup?_internAll_of_some (stands p hp) more

/-- Calls for two texts and the empty one, the first text twice. -/
private def firstCalls : List Bytes := [[0x66], [], [0x66], [0x62]]

private def laterCalls : List Bytes := [[0x67], [0x62]]

theorem repeated_text_keeps_number :
    (firstCalls ++ laterCalls).toFinset.card < UInt32.size ∧
    (start.internAll firstCalls).1 = [1, 0, 1, 2] ∧
    ((start.internAll firstCalls).2.internAll laterCalls).2.lookupWord? 2 = some [0x62] ∧
    (start.internAll firstCalls).2.size = 1 + 2 := by
  have few : (firstCalls ++ laterCalls).toFinset.card < UInt32.size := by decide
  have numbers : (start.internAll firstCalls).1 = [1, 0, 1, 2] := by decide +kernel
  obtain ⟨-, -, stands, -, -, -, -, size⟩ := numbers_stand_for_texts firstCalls laterCalls few
  refine ⟨few, numbers, (stands ([0x62], 2) ?_).2, size⟩
  rw [numbers]
  decide

end LetStack.Interner
