import LetStack.Diagnostic.Bag

/-!
`Bag.add` and `Bag.addAll` keep the diagnostics that come first, up to the limit (`addAll_kept`). An error is lost
exactly where those in front of it fill the bag (`any_kept_append`).
-/

namespace LetStack.Bag

/-- The diagnostics that a bag with a limit keeps. -/
def kept (limit : Int) (ds : List Diagnostic) : List Diagnostic :=
  if 0 < limit then ds.take limit.toNat else ds

/-- Whether a bag with a limit has room behind a number of diagnostics. -/
def HasRoom (limit : Int) (n : Nat) : Prop := limit ≤ 0 ∨ n < limit

instance (limit : Int) (n : Nat) : Decidable (HasRoom limit n) := inferInstanceAs (Decidable (_ ∨ _))

variable {b : Bag} {ds : List Diagnostic} {limit : Int}

theorem isFull_iff : b.isFull = true ↔ ¬HasRoom b.limit b.items.length := by
  simp only [isFull, HasRoom, Bool.and_eq_true, decide_eq_true_eq]
  omega

theorem limit_add (b : Bag) (d : Diagnostic) : (b.add d).limit = b.limit := by
  unfold add
  split <;> rfl

theorem add_of_room (room : HasRoom b.limit b.items.length) (d : Diagnostic) :
    b.add d = { b with items := b.items ++ [d] } :=
  if_neg fun full => isFull_iff.1 full room

theorem add_of_full (full : ¬HasRoom b.limit b.items.length) (d : Diagnostic) :
    b.add d = { b with dropped := b.dropped + 1 } :=
  if_pos (isFull_iff.2 full)

theorem add_of_unlimited (unlimited : b.limit ≤ 0) (d : Diagnostic) : b.add d = { b with items := b.items ++ [d] } :=
  add_of_room (.inl unlimited) d

theorem addAll_of_unlimited (unlimited : b.limit ≤ 0) (ds : List Diagnostic) :
    b.addAll ds = { b with items := b.items ++ ds } := by
  induction ds generalizing b with
  | nil => simp [addAll]
  | cons d ds ih =>
    have step : b.addAll (d :: ds) = (b.add d).addAll ds := rfl
    have rest := @ih { b with items := b.items ++ [d] } unlimited
    rw [step, add_of_unlimited unlimited, rest]
    simp

theorem items_add (b : Bag) (d : Diagnostic) :
    (b.add d).items = if HasRoom b.limit b.items.length then b.items ++ [d] else b.items := by
  by_cases room : HasRoom b.limit b.items.length
  · rw [add_of_room room, if_pos room]
  · rw [add_of_full room, if_neg room]

theorem items_addAll (b : Bag) (ds : List Diagnostic) :
    (b.addAll ds).items =
      b.items ++ if 0 < b.limit then ds.take (b.limit.toNat - b.items.length) else ds := by
  induction ds generalizing b with
  | nil => simp [addAll]
  | cons d ds ih =>
    show ((b.add d).addAll ds).items = _
    rw [ih, limit_add, items_add]
    by_cases positive : 0 < b.limit
    · rw [if_pos positive, if_pos positive]
      by_cases room : HasRoom b.limit b.items.length
      · have more : b.limit.toNat - b.items.length = b.limit.toNat - (b.items.length + 1) + 1 := by
          unfold HasRoom at room
          omega
        rw [if_pos room, more, List.take_succ_cons, List.length_append, List.length_singleton, List.append_assoc]
        rfl
      · have none : b.limit.toNat - b.items.length = 0 := by
          unfold HasRoom at room
          omega
        rw [if_neg room, none, List.take_zero, List.take_zero]
    · have room : HasRoom b.limit b.items.length := .inl (Int.not_lt.1 positive)
      rw [if_neg positive, if_neg positive, if_pos room, List.append_assoc]
      rfl

theorem items_ofLimit (limit : Int) (ds : List Diagnostic) :
    ((ofLimit limit).addAll ds).items = kept limit ds := by
  rw [items_addAll]
  rfl

theorem addAll_append (b : Bag) (ds es : List Diagnostic) : b.addAll (ds ++ es) = (b.addAll ds).addAll es :=
  List.foldl_append

theorem kept_kept (limit : Int) (ds : List Diagnostic) : kept limit (kept limit ds) = kept limit ds := by
  unfold kept
  by_cases positive : 0 < limit
  · simp only [if_pos positive, List.take_take, Nat.min_self]
  · simp only [if_neg positive]

theorem kept_map (g : Diagnostic → Diagnostic) (limit : Int) (ds : List Diagnostic) :
    (kept limit ds).map g = kept limit (ds.map g) := by
  unfold kept
  split
  · exact List.map_take
  · rfl

theorem mem_of_mem_kept {d : Diagnostic} (h : d ∈ kept limit ds) : d ∈ ds := by
  unfold kept at h
  split at h
  · exact List.mem_of_mem_take h
  · exact h

theorem limit_addAll (b : Bag) (ds : List Diagnostic) : (b.addAll ds).limit = b.limit := by
  induction ds generalizing b with
  | nil => rfl
  | cons d ds ih =>
    show ((b.add d).addAll ds).limit = b.limit
    rw [ih, limit_add]

theorem dropped_addAll (b : Bag) (ds : List Diagnostic) :
    ∃ n, (b.addAll ds).dropped = b.dropped + Int64.ofNat n ∧
      (b.addAll ds).items.length + n = b.items.length + ds.length := by
  induction ds generalizing b with
  | nil => exact ⟨0, (Int64.add_zero _).symm, rfl⟩
  | cons d ds ih =>
    obtain ⟨n, count, total⟩ := ih (b.add d)
    show ∃ n, ((b.add d).addAll ds).dropped = _ ∧ ((b.add d).addAll ds).items.length + n = _
    unfold add at count total ⊢
    split at count
    · next full =>
      rw [if_pos full] at total ⊢
      refine ⟨n + 1, ?_, ?_⟩
      · rw [count, Int64.add_assoc, Int64.ofNat_add, Int64.add_comm 1]
        rfl
      · rw [← Nat.add_assoc, total]
        rfl
    · next room =>
      rw [if_neg room] at total ⊢
      refine ⟨n, count, total.trans ?_⟩
      show (b.items ++ [d]).length + ds.length = b.items.length + (ds.length + 1)
      rw [List.length_append, Nat.add_assoc, Nat.add_comm ds.length]
      rfl

theorem dropped_ofLimit (limit : Int) (ds : List Diagnostic) :
    ((ofLimit limit).addAll ds).dropped = Int64.ofNat (ds.length - (kept limit ds).length) := by
  obtain ⟨n, count, total⟩ := dropped_addAll (ofLimit limit) ds
  rw [items_ofLimit] at total
  have empty : (ofLimit limit).items.length = 0 := rfl
  have same : n = ds.length - (kept limit ds).length := by omega
  rw [count, same]
  exact Int64.zero_add _

theorem dropped_map (g : Diagnostic → Diagnostic) (limit : Int) (ds : List Diagnostic) :
    ((ofLimit limit).addAll (ds.map g)).dropped = ((ofLimit limit).addAll ds).dropped := by
  rw [dropped_ofLimit, dropped_ofLimit, ← kept_map, List.length_map, List.length_map]

theorem addAll_kept (few : ds.length < 0x8000000000000000) :
    ((ofLimit limit).addAll (kept limit ds)).addDropped ((ofLimit limit).addAll ds).dropped =
      (ofLimit limit).addAll ds := by
  have none : ((ofLimit limit).addAll (kept limit ds)).dropped = 0 := by
    rw [dropped_ofLimit, kept_kept, Nat.sub_self]
    rfl
  have limits := (limit_addAll (ofLimit limit) (kept limit ds)).trans (limit_addAll (ofLimit limit) ds).symm
  have items : ((ofLimit limit).addAll (kept limit ds)).items = ((ofLimit limit).addAll ds).items := by
    rw [items_ofLimit, items_ofLimit, kept_kept]
  have same : { (ofLimit limit).addAll (kept limit ds) with dropped := ((ofLimit limit).addAll ds).dropped } =
      (ofLimit limit).addAll ds := by
    dsimp only
    rw [limits, items]
  -- the count is positive as long as it has not run over
  have count := dropped_ofLimit limit ds
  have fits : ds.length - (kept limit ds).length < 0x8000000000000000 := Nat.lt_of_le_of_lt (Nat.sub_le _ _) few
  unfold addDropped
  split
  · rw [none, Int64.zero_add]
    exact same
  · next least =>
    have zero : ((ofLimit limit).addAll ds).dropped = 0 := by
      rw [count] at least ⊢
      rw [show (0 : Int64) = Int64.ofNat 0 from rfl, Int64.ofNat_lt_iff_lt (by decide) fits, Nat.not_lt,
        Nat.le_zero] at least
      rw [least]
      rfl
    rw [zero, ← none] at same
    exact same

theorem any_iff_ne_nil {p : Diagnostic → Bool} (all : ∀ d ∈ ds, p d = true) : ds.any p = true ↔ ds ≠ [] := by
  cases ds with
  | nil => simp
  | cons d ds => simp [all d List.mem_cons_self]

/-- Behind diagnostics of another sort, some of a sort is kept exactly where there is room. -/
theorem any_kept_append {ws es : List Diagnostic} {p : Diagnostic → Bool} (others : ∀ d ∈ ws, p d = false)
    (all : ∀ d ∈ es, p d = true) : (kept limit (ws ++ es)).any p = true ↔ es ≠ [] ∧ HasRoom limit ws.length := by
  have front {ds : List Diagnostic} (part : ds ⊆ ws) : ds.any p = false :=
    List.any_eq_false.2 fun d member => by rw [others d (part member)]; exact Bool.false_ne_true
  unfold kept HasRoom
  split
  · next positive =>
    rw [List.take_append, List.any_append, front (List.take_subset _ ws), Bool.false_or,
      any_iff_ne_nil fun d member => all d (List.mem_of_mem_take member), ne_eq, List.take_eq_nil_iff]
    constructor
    · intro some
      exact ⟨fun none => some (.inr none), .inr (by omega)⟩
    · rintro ⟨nonempty, _ | room⟩ (full | none)
      · omega
      · exact nonempty none
      · omega
      · exact nonempty none
  · next unlimited =>
    rw [List.any_append, front (List.Subset.refl ws), Bool.false_or, any_iff_ne_nil all]
    exact ⟨fun nonempty => ⟨nonempty, .inl (Int.not_lt.1 unlimited)⟩, And.left⟩

end LetStack.Bag
