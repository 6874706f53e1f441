import LetStack.Proofs.Compile.Shared

/-!
The limit of `CompileOptions` bears on the bag alone (`fresh_of_limit`): the bag has the diagnostics that come first
and the number of the others (`limit_only_truncates`).
-/

namespace LetStack.Compilation

/-- The limit bears on the bag alone. -/
theorem fresh_of_limit (opts : CompileOptions) (limit : Int) (f : SourceFile) :
    fresh { opts with limit } f =
      { fresh opts f with bag := (Bag.ofLimit limit).addAll (reportsOf opts f) } := by
  have bag : (fresh { opts with limit } f).bag = (Bag.ofLimit limit).addAll (reportsOf opts f) :=
    fresh_bag { opts with limit } f
  rw [← bag]
  dsimp only [fresh]
  split <;> rfl

theorem items_of_unlimited {opts : CompileOptions} (unlimited : opts.limit ≤ 0) (f : SourceFile) :
    (fresh opts f).bag.items = reportsOf opts f := by
  rw [fresh_bag, Bag.items_ofLimit, Bag.kept, if_neg (Int.not_lt.2 unlimited)]

/-- With a limit a text compiles to the same code and the same module and stops at the same place. Of the
diagnostics the first ones are kept, as many as the limit allows, and the others are counted; the count is
exact for every text that is shorter than 2^62 bytes. -/
theorem limit_only_truncates (strict : Bool) {limit free : Int} (positive : 0 < limit) (unlimited : free ≤ 0)
    (name content : Bytes) :
    let cut := (ofText { strict, limit } name content).1
    let whole := (ofText { strict, limit := free } name content).1
    cut.program = whole.program ∧ cut.module = whole.module ∧ cut.aborted = whole.aborted ∧
    cut.bag.items = whole.bag.items.take limit.toNat ∧
    cut.bag.dropped = Int64.ofNat (whole.bag.items.drop limit.toNat).length ∧ whole.bag.dropped = 0 ∧
    (content.length < 0x4000000000000000 → cut.bag.dropped.toInt = (whole.bag.items.drop limit.toNat).length) := by
  intro cut whole
  let opts : CompileOptions := { strict, limit := free }
  let f := fileOf name content
  have same : cut = { whole with bag := (Bag.ofLimit limit).addAll (reportsOf opts f) } := fresh_of_limit opts limit f
  have items : whole.bag.items = reportsOf opts f := items_of_unlimited unlimited f
  have dropped : cut.bag.dropped = Int64.ofNat (whole.bag.items.drop limit.toNat).length := by
    rw [same, items, Bag.dropped_ofLimit, Bag.kept, if_pos positive, List.length_take, List.length_drop]
    congr 1
    omega
  refine ⟨by rw [same], by rw [same], by rw [same], ?_, dropped, ?_, fun small => ?_⟩
  · rw [same, items, Bag.items_ofLimit, Bag.kept, if_pos positive]
  · have bag : whole.bag = (Bag.ofLimit free).addAll (reportsOf opts f) := fresh_bag opts f
    rw [bag, Bag.dropped_ofLimit, Bag.kept, if_neg (Int.not_lt.2 unlimited), Nat.sub_self]
    rfl
  · have few := length_reportsOf_le opts f
    rw [dropped, Int64.toInt_ofNat_of_lt]
    rw [List.length_drop, items]
    have content : f.content.length < 0x4000000000000000 := small
    omega

/-- `1; )` between two stray bytes, with room for one of three diagnostics. -/
theorem stray_bytes_truncated :
    let content : Bytes := [0xFF, 0x31, 0x3B, 0x29, 0xFF]
    let cut := (ofText { limit := 1 } [] content).1
    let whole := (ofText {} [] content).1
    0 < cut.bag.limit ∧ cut.program = whole.program ∧ cut.bag.items = whole.bag.items.take 1 ∧
    cut.bag.dropped = 2 ∧ cut.bag.dropped.toInt = (whole.bag.items.drop 1).length := by
  intro content cut whole
  obtain ⟨program, _, _, items, dropped, _, counted⟩ :=
    @limit_only_truncates false 1 0 (by decide) (by decide) [] content
  refine ⟨?_, program, items, ?_, counted (by decide)⟩
  · decide +kernel
  · decide +kernel

end LetStack.Compilation
