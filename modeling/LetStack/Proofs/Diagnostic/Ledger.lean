import LetStack.Diagnostic.Document
import LetStack.Proofs.Diagnostic.Bag

/-!
The bags of a collection are filled by `add` and `addDropped` and merged, in any order (`BagOp`), with an `Account` of
what each was given. A bag holds the first diagnostics up to its limit and counts the others (`bags_accounted`), and
its document lists a first part of them and counts the rest (`no_diagnostic_forgotten`). The count has 64 bits
(`dropped_count_runs_over`).
-/

namespace LetStack

/-! ## Operations on bags -/

/-- What is done to the bags of a collection, which are known by their places in it. -/
inductive BagOp where
  | create (limit : Int)
  | add (place : Nat) (d : Diagnostic)
  | addDropped (place : Nat) (n : Int64)
  | merge (place other : Nat)
  deriving DecidableEq, Repr

/-- Something that operations on bags can be done to. -/
structure BagLike (α : Type) where
  ofLimit : Int → α
  add : α → Diagnostic → α
  addDropped : α → Int64 → α
  merge : α → α → α

namespace BagLike

variable {α β : Type}

/-- One operation. Nothing is done at a place where there is none, and nothing is merged from there. -/
def step (A : BagLike α) (xs : List α) : BagOp → List α
  | .create limit => xs ++ [A.ofLimit limit]
  | .add i d => xs.modify i (A.add · d)
  | .addDropped i n => xs.modify i (A.addDropped · n)
  | .merge i j => (xs[j]?).elim xs fun other => xs.modify i (A.merge · other)

/-- A collection that is made by operations one after another. -/
def run (A : BagLike α) (ops : List BagOp) : List α := ops.foldl A.step []

theorem run_append (A : BagLike α) (ops more : List BagOp) : A.run (ops ++ more) = more.foldl A.step (A.run ops) :=
  List.foldl_append

/-- Two collections of one size, related place by place. -/
structure Matched (R : α → β → Prop) (xs : List α) (ys : List β) : Prop where
  length : xs.length = ys.length
  each : ∀ (i : Nat) x y, xs[i]? = some x → ys[i]? = some y → R x y

/-- Every operation keeps a relation. -/
structure Simulates (A : BagLike α) (B : BagLike β) (R : α → β → Prop) : Prop where
  ofLimit : ∀ limit, R (A.ofLimit limit) (B.ofLimit limit)
  add : ∀ {x y}, R x y → ∀ d, R (A.add x d) (B.add y d)
  addDropped : ∀ {x y}, R x y → ∀ n, R (A.addDropped x n) (B.addDropped y n)
  merge : ∀ {x y x' y'}, R x y → R x' y' → R (A.merge x x') (B.merge y y')

section
variable {R : α → β → Prop} {xs : List α} {ys : List β}

theorem Matched.get (h : Matched R xs ys) {i : Nat} {x : α} (here : xs[i]? = some x) :
    ∃ y, ys[i]? = some y ∧ R x y := by
  obtain ⟨inside, -⟩ := List.getElem?_eq_some_iff.1 here
  have there := List.getElem?_eq_getElem (h.length ▸ inside)
  exact ⟨_, there, h.each i x _ here there⟩

theorem Matched.concat (h : Matched R xs ys) {x : α} {y : β} (last : R x y) : Matched R (xs ++ [x]) (ys ++ [y]) where
  length := by rw [List.length_append, List.length_append, h.length]; rfl
  each := by
    intro i x' y' here there
    rw [List.getElem?_append] at here there
    rw [h.length] at here
    split at here
    · next inside =>
      rw [if_pos inside] at there
      exact h.each i x' y' here there
    · next behind =>
      rw [if_neg behind] at there
      rw [List.mem_singleton.1 (List.mem_of_getElem? here), List.mem_singleton.1 (List.mem_of_getElem? there)]
      exact last

theorem Matched.modify (h : Matched R xs ys) {f : α → α} {g : β → β} (kept : ∀ x y, R x y → R (f x) (g y)) (i : Nat) :
    Matched R (xs.modify i f) (ys.modify i g) where
  length := by rw [List.length_modify, List.length_modify, h.length]
  each := by
    intro k x y here there
    rw [List.getElem?_modify] at here there
    obtain ⟨x', here', rfl⟩ := Option.map_eq_some_iff.1 here
    obtain ⟨y', there', rfl⟩ := Option.map_eq_some_iff.1 there
    have related := h.each k x' y' here' there'
    split
    · exact kept x' y' related
    · exact related

variable {A : BagLike α} {B : BagLike β}

theorem Simulates.step (sim : Simulates A B R) (h : Matched R xs ys) (op : BagOp) :
    Matched R (A.step xs op) (B.step ys op) := by
  cases op with
  | create limit => exact h.concat (sim.ofLimit limit)
  | add i d => exact h.modify (fun _ _ related => sim.add related d) i
  | addDropped i n => exact h.modify (fun _ _ related => sim.addDropped related n) i
  | merge i j =>
    simp only [BagLike.step]
    cases here : xs[j]? with
    | none =>
      have there : ys[j]? = none := List.getElem?_eq_none (h.length ▸ List.getElem?_eq_none_iff.1 here)
      rw [there]
      exact h
    | some other =>
      -- it may be merged into itself, so both sides take what stood there before
      obtain ⟨other', there, related'⟩ := h.get here
      rw [there]
      exact h.modify (fun _ _ related => sim.merge related related') i

theorem Simulates.run (sim : Simulates A B R) (ops : List BagOp) : Matched R (A.run ops) (B.run ops) := by
  have onward (ops : List BagOp) {xs : List α} {ys : List β} (h : Matched R xs ys) :
      Matched R (ops.foldl A.step xs) (ops.foldl B.step ys) := by
    induction ops generalizing xs ys with
    | nil => exact h
    | cons op ops ih => exact ih (sim.step h op)
  exact onward ops ⟨rfl, fun i x y here => by cases here⟩

end

end BagLike

/-- Bags, with what is done to them. -/
def Bag.bagLike : BagLike Bag := ⟨.ofLimit, Bag.add, Bag.addDropped, Bag.merge⟩

/-! ## Accounts -/

/-- What a bag was given. -/
structure Account where
  /-- The diagnostics that were added, with those given to merged bags, in this order. -/
  given : List Diagnostic := []
  /-- How many diagnostics there were, with those cut before they came. -/
  total : Nat := 0
  deriving DecidableEq, Repr

/-- Accounts, with what operations on bags do to them; a number that is not positive counts for nothing. -/
def Account.bagLike : BagLike Account where
  ofLimit _ := {}
  add a d := ⟨a.given ++ [d], a.total + 1⟩
  addDropped a n := { a with total := a.total + n.toInt.toNat }
  merge a other := ⟨a.given ++ other.given, a.total + other.total⟩

/-- A bag does what its account says. -/
structure Accounted (b : Bag) (a : Account) : Prop where
  room : 0 < b.limit → (b.items.length : Int) ≤ b.limit
  order : b.items.Sublist a.given
  lost : ∃ lost, b.items.length + lost = a.total ∧ b.dropped = Int64.ofNat lost

theorem accounted_ofLimit (limit : Int) : Accounted (.ofLimit limit) {} :=
  ⟨Int.le_of_lt, .slnil, 0, rfl, rfl⟩

namespace Accounted

variable {b : Bag} {a : Account} (h : Accounted b a)
include h

theorem add (d : Diagnostic) : Accounted (b.add d) ⟨a.given ++ [d], a.total + 1⟩ := by
  obtain ⟨lost, total, count⟩ := h.lost
  unfold Bag.add
  split
  · refine ⟨h.room, h.order.trans (List.sublist_append_left _ _), lost + 1, ?_, ?_⟩
    · rw [← Nat.add_assoc, total]
    · rw [count, Int64.ofNat_add]
      rfl
  · next room =>
    refine ⟨fun positive => ?_, h.order.append (.refl _), lost, ?_, count⟩
    · rw [Bag.isFull_iff, Decidable.not_not] at room
      unfold Bag.HasRoom at room
      dsimp only at positive ⊢
      rw [List.length_append, List.length_singleton]
      omega
    · show (b.items ++ [d]).length + lost = a.total + 1
      rw [List.length_append, List.length_singleton]
      omega

theorem addDropped (n : Int64) : Accounted (b.addDropped n) { a with total := a.total + n.toInt.toNat } := by
  obtain ⟨lost, total, count⟩ := h.lost
  unfold Bag.addDropped
  have sign : 0 < n ↔ 0 < n.toInt := Int64.lt_iff_toInt_lt
  split
  · next positive =>
    refine ⟨h.room, h.order, lost + n.toInt.toNat, by rw [← Nat.add_assoc, total], ?_⟩
    have same : Int64.ofNat n.toInt.toNat = n := by
      rw [← Int64.ofInt_eq_ofNat, Int.toNat_of_nonneg (Int.le_of_lt (sign.1 positive)), Int64.ofInt_toInt]
    rw [count, Int64.ofNat_add, same]
  · next least =>
    have nothing : n.toInt.toNat = 0 := Int.toNat_of_nonpos (Int.not_lt.1 fun positive => least (sign.2 positive))
    rw [nothing, Nat.add_zero]
    exact h

theorem merge {b' : Bag} {a' : Account} (h' : Accounted b' a') :
    Accounted (b.merge b') ⟨a.given ++ a'.given, a.total + a'.total⟩ := by
  obtain ⟨lost, total, count⟩ := h.lost
  obtain ⟨lost', total', count'⟩ := h'.lost
  refine ⟨fun _ => ?_, h.order.append h'.order, lost + lost', ?_, ?_⟩
  · unfold Bag.merge at *
    dsimp only at *
    split at *
    · rw [List.length_append]
      omega
    · contradiction
  · show (b.items ++ b'.items).length + (lost + lost') = a.total + a'.total
    rw [List.length_append]
    omega
  · show b.dropped + b'.dropped = _
    rw [count, count', Int64.ofNat_add]

end Accounted

theorem bags_accounted (ops : List BagOp) :
    BagLike.Matched Accounted (Bag.bagLike.run ops) (Account.bagLike.run ops) :=
  BagLike.Simulates.run
    ⟨accounted_ofLimit, fun h d => h.add d, fun h n => h.addDropped n, fun h h' => h.merge h'⟩ ops

/-! ## What is held stays -/

/-- A bag has become another one that holds the same in front, under a limit that is not lower. -/
structure Bag.Grown (b b' : Bag) : Prop where
  items : b.items <+: b'.items
  limit : b.limit ≤ b'.limit

namespace Bag

variable {b b' b'' : Bag}

theorem Grown.refl (b : Bag) : Grown b b := ⟨List.prefix_rfl, Int.le_refl _⟩

theorem Grown.trans (h : Grown b b') (h' : Grown b' b'') : Grown b b'' :=
  ⟨h.items.trans h'.items, Int.le_trans h.limit h'.limit⟩

theorem grown_add (b : Bag) (d : Diagnostic) : Grown b (b.add d) := by
  unfold add
  split
  · exact ⟨List.prefix_rfl, Int.le_refl _⟩
  · exact ⟨List.prefix_append _ _, Int.le_refl _⟩

theorem grown_addDropped (b : Bag) (n : Int64) : Grown b (b.addDropped n) := by
  unfold addDropped
  split <;> exact ⟨List.prefix_rfl, Int.le_refl _⟩

theorem grown_merge (b other : Bag) : Grown b (b.merge other) := by
  refine ⟨List.prefix_append _ _, ?_⟩
  unfold merge
  dsimp only
  split
  · exact Int.le_max_left _ _
  · exact Int.le_refl _

theorem grown_modify {bags : List Bag} {i : Nat} (here : bags[i]? = some b) {f : Bag → Bag} (grown : ∀ b, Grown b (f b))
    (k : Nat) : ∃ b', (bags.modify k f)[i]? = some b' ∧ Grown b b' := by
  rw [List.getElem?_modify, here]
  refine ⟨_, rfl, ?_⟩
  split
  · exact grown b
  · exact .refl b

theorem grown_step {bags : List Bag} {i : Nat} (here : bags[i]? = some b) (op : BagOp) :
    ∃ b', (bagLike.step bags op)[i]? = some b' ∧ Grown b b' := by
  cases op with
  | create limit =>
    obtain ⟨inside, -⟩ := List.getElem?_eq_some_iff.1 here
    exact ⟨b, (List.getElem?_append_left inside).trans here, .refl b⟩
  | add k d => exact grown_modify here (grown_add · d) k
  | addDropped k n => exact grown_modify here (grown_addDropped · n) k
  | merge k j =>
    simp only [BagLike.step]
    cases bags[j]? with
    | none => exact ⟨b, here, .refl b⟩
    | some other => exact grown_modify here (grown_merge · other) k

theorem grown_run {ops : List BagOp} {i : Nat} (here : (bagLike.run ops)[i]? = some b) (more : List BagOp) :
    ∃ b', (bagLike.run (ops ++ more))[i]? = some b' ∧ Grown b b' := by
  rw [BagLike.run_append]
  generalize bagLike.run ops = bags at here
  induction more generalizing bags b with
  | nil => exact ⟨b, here, .refl b⟩
  | cons op more ih =>
    obtain ⟨b', here', grown⟩ := grown_step here op
    obtain ⟨b'', here'', grown'⟩ := ih _ here'
    exact ⟨b'', here'', grown.trans grown'⟩

end Bag

/-! ## Totals -/

/-- What is shown and the count of what is missing make up a total: always in the 64 bits of the count, and as numbers
exactly if the number of what is missing fits into them. -/
structure MakesUp (shown : Nat) (missing : Int64) (total : Nat) : Prop where
  atMost : shown ≤ total
  words : Int64.ofNat shown + missing = Int64.ofNat total
  numbers : (shown : Int) + missing.toInt = total ↔ total - shown < 0x8000000000000000

theorem MakesUp.of_lost {shown lost total : Nat} {missing : Int64} (all : shown + lost = total)
    (count : missing = Int64.ofNat lost) : MakesUp shown missing total where
  atMost := Nat.le.intro all
  words := by rw [count, ← Int64.ofNat_add, all]
  numbers := by
    have missed : total - shown = lost := by omega
    rw [missed, count]
    constructor
    · intro exact
      have fits := (Int64.ofNat lost).toInt_lt
      omega
    · intro fits
      rw [Int64.toInt_ofNat_of_lt fits]
      omega

namespace Bag

theorem listedCount_eq (b : Bag) (limit : Int) :
    (b.listedCount limit : Int) = if 0 < limit then min limit b.items.length else b.items.length := by
  unfold listedCount
  split <;> split <;> omega

theorem listedCount_le (b : Bag) (limit : Int) : b.listedCount limit ≤ b.items.length := by
  unfold listedCount
  split <;> omega

theorem length_report (b : Bag) (fs? : Option FileSet) (opts : DocumentOptions) (workDir : Bytes) :
    (b.report fs? opts workDir).diagnostics.length = (b.report fs? opts workDir).count := by
  unfold report
  dsimp only
  rw [List.length_map, List.length_take, Nat.min_eq_left (b.listedCount_le opts.limit)]

theorem makesUp_report {b : Bag} {a : Account} (h : Accounted b a) (fs? : Option FileSet) (opts : DocumentOptions)
    (workDir : Bytes) : MakesUp (b.report fs? opts workDir).count (b.report fs? opts workDir).dropped a.total := by
  obtain ⟨lost, total, count⟩ := h.lost
  have part := b.listedCount_le opts.limit
  unfold report
  dsimp only
  have all : b.listedCount opts.limit + (lost + (b.items.length - b.listedCount opts.limit)) = a.total := by omega
  exact .of_lost all (by rw [count, Int64.ofNat_add])

theorem items_run_add {ops : List BagOp} {place : Nat} {b : Bag} (here : (bagLike.run ops)[place]? = some b)
    (d : Diagnostic) : ∃ b', (bagLike.run (ops ++ [.add place d]))[place]? = some b' ∧
      b'.items = if HasRoom b.limit b.items.length then b.items ++ [d] else b.items := by
  refine ⟨b.add d, ?_, items_add b d⟩
  rw [BagLike.run_append]
  show ((bagLike.run ops).modify place (bagLike.add · d))[place]? = _
  rw [List.getElem?_modify_eq, here]
  rfl

end Bag

/-- Whatever is done to the bags of a collection, each bag with a limit holds at most so many diagnostics. It keeps what
it holds, takes another diagnostic as long as there is room, and its limit is never lowered. What it holds is in the
order in which it was given, and what it holds and what it counts as dropped make up all that it was given. The same
total is made up by a document of it, which lists a first part of what it holds. -/
theorem no_diagnostic_forgotten (ops : List BagOp) {place : Nat} {b : Bag}
    (here : (Bag.bagLike.run ops)[place]? = some b) :
    (0 < b.limit → (b.items.length : Int) ≤ b.limit) ∧
    (∀ more, ∃ b', (Bag.bagLike.run (ops ++ more))[place]? = some b' ∧ Bag.Grown b b') ∧
    (∀ d, ∃ b', (Bag.bagLike.run (ops ++ [.add place d]))[place]? = some b' ∧
      b'.items = if Bag.HasRoom b.limit b.items.length then b.items ++ [d] else b.items) ∧
    ∃ a, (Account.bagLike.run ops)[place]? = some a ∧ b.items.Sublist a.given ∧
      MakesUp b.items.length b.dropped a.total ∧
      ∀ fs? opts workDir, let r := b.report fs? opts workDir
        r.diagnostics = (b.items.take r.count).map (·.report fs? opts workDir) ∧ r.diagnostics.length = r.count ∧
        (r.count : Int) = (if 0 < opts.limit then min opts.limit b.items.length else b.items.length) ∧
        MakesUp r.count r.dropped a.total := by
  obtain ⟨a, there, accounted⟩ := (bags_accounted ops).get here
  obtain ⟨lost, total, count⟩ := accounted.lost
  refine ⟨accounted.room, Bag.grown_run here, Bag.items_run_add here, a, there, accounted.order, ?_, ?_⟩
  · exact .of_lost total count
  · intro fs? opts workDir
    exact ⟨rfl, b.length_report fs? opts workDir, b.listedCount_eq opts.limit,
      Bag.makesUp_report accounted fs? opts workDir⟩

/-! Two bags: one is filled, told of three more diagnostics, merged into itself and into the other one. -/

private def stray : Diagnostic := .warning .unrecognizedInput { start := 0, stop := 1 } "unrecognized input"

private def mergedOps : List BagOp :=
  [.create 1, .create 2, .add 0 stray, .add 0 { stray with message := "again" }, .addDropped 0 3, .addDropped 0 (-7),
    .merge 0 0, .merge 1 0, .add 0 stray]

theorem merged_bags_make_up_total :
    (Bag.bagLike.run mergedOps)[0]? = some ⟨2, [stray, stray], 9⟩ ∧
    (Account.bagLike.run mergedOps)[0]?.map (·.total) = some 11 ∧ MakesUp 2 9 11 ∧
    MakesUp ((Bag.mk 2 [stray, stray] 9).report none { limit := 1 } []).count
      ((Bag.mk 2 [stray, stray] 9).report none { limit := 1 } []).dropped 11 := by
  have here : (Bag.bagLike.run mergedOps)[0]? = some ⟨2, [stray, stray], 9⟩ := by decide +kernel
  have account : (Account.bagLike.run mergedOps)[0]?.map (·.total) = some 11 := by decide +kernel
  obtain ⟨-, -, -, a, there, -, held, listed⟩ := no_diagnostic_forgotten mergedOps here
  have total : a.total = 11 := by
    rw [there] at account
    exact Option.some.inj account
  rw [total] at held listed
  exact ⟨here, account, held, (listed none { limit := 1 } []).2.2.2⟩

/-- A bag that is told of as many dropped diagnostics as can be counted and of one more counts less than none. -/
theorem dropped_count_runs_over :
    ((Bag.bagLike.run [.create 0, .addDropped 0 0x7FFFFFFFFFFFFFFF, .addDropped 0 1])[0]?.map fun b =>
      (b.items.length : Int) + b.dropped.toInt) = some (-0x8000000000000000) ∧
    (Account.bagLike.run [.create 0, .addDropped 0 0x7FFFFFFFFFFFFFFF, .addDropped 0 1])[0]?.map (·.total) =
      some 0x8000000000000000 := by
  decide +kernel

end LetStack
