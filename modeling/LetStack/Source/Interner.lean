import LetStack.Text.Bytes

/-!
An interner numbers texts: equal texts get one number, and a number always stands for the same text.
It keeps the texts in the order of their numbers and, beside them, an index from texts to numbers;
each of the two is the inverse of the other. Number 0 is the empty text.
-/

namespace LetStack

/-- The number of an interned text. -/
abbrev StringId := Nat

/-- The index leads to the number of every text, and to no other. -/
def Interner.Inverse (texts : Array Bytes) (index : List (Bytes × StringId)) : Prop :=
  ∀ s id, index.lookup s = some id ↔ texts[id]? = some s

structure Interner where
  texts : Array Bytes
  index : List (Bytes × StringId)
  inverse : Interner.Inverse texts index
  reserved : texts[0]? = some []
  deriving Repr

namespace Interner

theorem Inverse.start : Inverse #[[]] [([], 0)] := by
  intro s id
  cases s with
  | nil => cases id <;> simp
  | cons c s => cases id <;> simp [List.lookup_cons]

/-- A text that the index does not know gets the next number. -/
theorem Inverse.push {texts : Array Bytes} {index : List (Bytes × StringId)} (inverse : Inverse texts index)
    {s : Bytes} (new : index.lookup s = none) : Inverse (texts.push s) ((s, texts.size) :: index) := by
  intro r id
  rw [List.lookup_cons, Array.getElem?_push]
  by_cases same : r = s
  · have absent : ¬texts[id]? = some r := by
      rw [← inverse, same, new]
      intro found
      cases found
    simp only [same, beq_self_eq_true, Option.some_inj]
    split
    · next last => exact ⟨fun _ => rfl, fun _ => last.symm⟩
    · next other => exact ⟨fun last => (other last.symm).elim, fun found => (absent (same ▸ found)).elim⟩
  · simp only [beq_eq_false_iff_ne.2 same]
    split
    · next last =>
      have none : texts[id]? = none := by rw [last, Array.getElem?_eq_none (Nat.le_refl _)]
      rw [inverse, none]
      exact ⟨fun found => (by cases found), fun found => (same (Option.some.inj found).symm).elim⟩
    · exact inverse r id

/-- The interner that knows only the empty text. -/
def start : Interner where
  texts := #[[]]
  index := [([], 0)]
  inverse := .start
  reserved := rfl

instance : Inhabited Interner := ⟨start⟩

/-- Gives a text that the index does not know the next number. -/
def add (t : Interner) (s : Bytes) (new : t.index.lookup s = none) : Interner where
  texts := t.texts.push s
  index := (s, t.texts.size) :: t.index
  inverse := t.inverse.push new
  reserved := by
    obtain ⟨inside, _⟩ := Array.getElem?_eq_some_iff.1 t.reserved
    rw [Array.getElem?_push_lt inside, ← Array.getElem?_eq_getElem inside, t.reserved]

/-- The number of a text, a new one if the text is new. -/
def intern (t : Interner) (s : Bytes) : StringId × Interner :=
  match new : t.index.lookup s with
  | some id => (id, t)
  | none => (t.texts.size, t.add s new)

def lookup? (t : Interner) (id : StringId) : Option Bytes := t.texts[id]?

def size (t : Interner) : Nat := t.texts.size

/-! Callers hold numbers as words. -/

def internWord (t : Interner) (s : Bytes) : UInt32 × Interner :=
  let call := t.intern s
  (.ofNat call.1, call.2)

def lookupWord? (t : Interner) (id : UInt32) : Option Bytes := t.lookup? id.toNat

end Interner

end LetStack
