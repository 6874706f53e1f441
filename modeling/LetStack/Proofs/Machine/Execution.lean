import LetStack.Machine.Program

/-!
Execution of programs. An `Interpretation` says what constants, operators and tuples mean, in any monad, so that the
order of computation can be observed. `step` is stuck where an instruction finds too few values, an unknown name or an
unknown opcode.
-/

namespace LetStack.Machine

universe u v

/-- What the push instructions push. -/
inductive Constant where
  | int (n : Int64)
  | float (x : Binary64)
  | bool (b : Bool)
  | char (c : Char)
  | string (s : Bytes)
  deriving DecidableEq, Repr

/-- The constant that an instruction pushes. -/
def Instr.constant? (i : Instr) : Option Constant :=
  match i.op with
  | .pushInt => some (.int i.int)
  | .pushDec => some (.float i.float)
  | .pushBool => some (.bool (i.int != 0))
  | .pushChar => some (.char (Instr.charOf i.int))
  | .pushStr => some (.string i.str)
  | _ => none

/-- A meaning of constants, of operators by their mnemonics and of tuples. -/
structure Interpretation (m : Type u → Type v) (V : Type u) where
  constant : Constant → m V
  unary : Bytes → V → m V
  binary : Bytes → V → V → m V
  tuple : List V → m V

/-- The values of names. -/
def Env (V : Type u) : Type u := Bytes → Option V

namespace Env
variable {V : Type u}

def empty : Env V := fun _ => none

def set (env : Env V) (name : Bytes) (x : V) : Env V := fun n => if n = name then some x else env n

@[simp] theorem set_same (env : Env V) (name : Bytes) (x : V) : env.set name x name = some x := by
  simp [set]

theorem isSome_set {env : Env V} {n : Bytes} (h : (env n).isSome) (name : Bytes) (x : V) :
    (env.set name x n).isSome := by
  unfold set
  split
  · rfl
  · exact h

end Env

structure State (V : Type u) where
  stack : List V
  env : Env V

variable {m : Type u → Type v} [Monad m] {V : Type u}

namespace Interpretation

/-- One instruction; none where the machine is stuck. -/
def step (I : Interpretation m V) (i : Instr) (s : State V) : Option (m (State V)) :=
  let push (x : m V) (stack : List V) : Option (m (State V)) :=
    some (x >>= fun value => pure { s with stack := value :: stack })
  match i.op, s.stack with
  | .load, stack => (s.env i.str).bind fun value => push (pure value) stack
  | .store, value :: stack => some (pure { stack, env := s.env.set i.str value })
  | .pop, _ :: stack => some (pure { s with stack })
  | .unary, operand :: stack => push (I.unary i.str operand) stack
  | .binary, right :: left :: stack => push (I.binary i.str left right) stack
  | .tuple, stack =>
    -- the last element lies on top
    if i.count.toNat ≤ stack.length then
      push (I.tuple (stack.take i.count.toNat).reverse) (stack.drop i.count.toNat)
    else none
  | _, stack => i.constant?.bind fun k => push (I.constant k) stack

/-- Instructions in order; none once the machine is stuck. -/
def run (I : Interpretation m V) : List Instr → State V → m (Option (State V))
  | [], s => pure (some s)
  | i :: code, s =>
    match I.step i s with
    | none => pure none
    | some next => next >>= I.run code

/-! ## Code that computes a value -/

/-- The code computes a value and leaves it on the stack, whatever lies below and whatever code
follows. -/
def Computes (I : Interpretation m V) (env : Env V) (code : List Instr) (x : m V) : Prop :=
  ∀ rest stack, I.run (code ++ rest) ⟨stack, env⟩ = x >>= fun value => I.run rest ⟨value :: stack, env⟩

variable [LawfulMonad m] {I : Interpretation m V} {env : Env V} {code more : List Instr} {x y : m V}

theorem computes_constant {i : Instr} {k : Constant} (h : i.constant? = some k) :
    I.Computes env [i] (I.constant k) := by
  intro rest stack
  have pushes : I.step i ⟨stack, env⟩ = some (I.constant k >>= fun value => pure ⟨value :: stack, env⟩) := by
    cases hop : i.op with
    | pushInt | pushDec | pushBool | pushChar | pushStr => simp [step, hop, h]
    | _ => simp [Instr.constant?, hop] at h
  rw [List.singleton_append, run, pushes]
  simp

theorem computes_load {i : Instr} {value : V} (hop : i.op = .load) (known : env i.str = some value) :
    I.Computes env [i] (pure value) := by
  intro rest stack
  simp [run, step, hop, known]

theorem Computes.unary (h : I.Computes env code x) {i : Instr} (hop : i.op = .unary) :
    I.Computes env (code ++ [i]) (x >>= I.unary i.str) := by
  intro rest stack
  rw [List.append_assoc, h]
  simp [run, step, hop]

theorem Computes.binary (hx : I.Computes env code x) (hy : I.Computes env more y) {i : Instr}
    (hop : i.op = .binary) :
    I.Computes env (code ++ more ++ [i]) (x >>= fun left => y >>= fun right => I.binary i.str left right) := by
  intro rest stack
  rw [List.append_assoc, List.append_assoc, hx]
  simp only [hy _ _, bind_assoc]
  simp [run, step, hop]

/-- The code computes `n` values for the tuple instruction behind it, which takes also the values
`before` that lie on the stack. -/
def Collects (I : Interpretation m V) (env : Env V) (n : Nat) (code : List Instr) (xs : m (List V)) : Prop :=
  ∀ (i : Instr) (before : List V) (rest : List Instr) (stack : List V),
    i.op = .tuple → i.count.toNat = before.length + n →
    I.run (code ++ i :: rest) ⟨before.reverse ++ stack, env⟩ =
      xs >>= fun values => I.tuple (before ++ values) >>= fun value => I.run rest ⟨value :: stack, env⟩

theorem collects_nil : I.Collects env 0 [] (pure []) := by
  intro i before rest stack hop hcount
  have all : i.count.toNat = before.reverse.length := by rw [hcount, List.length_reverse, Nat.add_zero]
  have room : before.reverse.length ≤ (before.reverse ++ stack).length := by simp
  simp only [List.nil_append, run, step, hop, all, if_pos room, List.take_left, List.drop_left,
    List.reverse_reverse, bind_assoc, pure_bind, List.append_nil]

theorem Computes.collects (hx : I.Computes env code x) {n : Nat} {xs : m (List V)}
    (hxs : I.Collects env n more xs) :
    I.Collects env (n + 1) (code ++ more) (x >>= fun value => xs >>= fun values => pure (value :: values)) := by
  intro i before rest stack hop hcount
  rw [List.append_assoc, hx]
  simp only [bind_assoc, pure_bind]
  congr 1
  funext value
  -- the value just computed joins those that were there before
  have := hxs i (before ++ [value]) rest stack hop (by simp [hcount]; omega)
  simpa using this

theorem Collects.tuple {n : Nat} {xs : m (List V)} (h : I.Collects env n code xs) {i : Instr}
    (hop : i.op = .tuple) (hcount : i.count.toNat = n) : I.Computes env (code ++ [i]) (xs >>= I.tuple) := by
  intro rest stack
  have := h i [] rest stack hop (by simpa using hcount)
  rw [List.append_assoc, List.singleton_append]
  simpa using this

end Interpretation

end LetStack.Machine
