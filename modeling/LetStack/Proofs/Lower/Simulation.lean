import Mathlib
import LetStack.Proofs.Lower.Tree
import LetStack.Proofs.Machine.Execution

/-!
Lowering keeps the meaning of statements. `Statement.meaning?` is by recursion on the tree, for any `Interpretation`;
an unknown name, the placeholder, a path and a literal that denotes nothing have none. The code of the statements
without a fault does on the machine what they mean (`lowered_program_has_meaning_of_statements`).
-/

namespace LetStack.Lower

/-- Names may be compared in any form that stays as it is when it is taken once more. -/
theorem Scope.mem_bindBy {key : Bytes → Bytes} {s : Scope} {text name : Bytes} (stable : key (key text) = key text) :
    name ∈ s.bindBy key (key text) ↔ name ∈ s ∨ name = key text := by
  by_cases bound : s.isBoundBy key (key text)
  · rw [bindBy, if_pos bound]
    rw [isBoundBy, stable, List.contains_iff_mem] at bound
    constructor
    · exact .inl
    · rintro (old | rfl)
      · exact old
      · exact bound
  · rw [bindBy, if_neg bound, stable, List.mem_append, List.mem_singleton]

end LetStack.Lower

namespace LetStack.Ast
open Lower Machine

universe u v

/-! ## Meaning -/

/-- The text between the quotes of a literal, escapes decoded. -/
def quotedText? (raw : Bytes) : Option Bytes :=
  if raw.length < 2 then none else (unescapeFrom 0 ((raw.drop 1).take (raw.length - 2))).toOption

def LiteralKind.constant? (raw : Bytes) : LiteralKind → Option Constant
  | .int => (Integer.readSigned (intDigits raw).1 (intDigits raw).2).toOption.map .int
  | .decimal | .exponent => (Binary64.ofText raw).toOption.map .float
  | .bool => some (.bool (raw = "true"))
  | .char => (quotedText? raw).bind fun text =>
    match Utf8.pieces text with
    | [p] => some (.char p.shown)
    | _ => none
  | .string => (quotedText? raw).map .string

section
variable {m : Type u → Type v} [Monad m] {V : Type u} (I : Interpretation m V)

mutual

/-- What an expression computes where names have the values of an environment, if it has a meaning.
The literal 2^63 has one behind a minus sign. -/
def Expr.meaning? (env : Env V) : Expr → Option (m V)
  | .literal kind raw _ => (kind.constant? raw).map I.constant
  | .name (.ident text _) => (env (Scope.key text)).map pure
  | .name (.placeholder _) => none
  | .path _ => none
  | .tuple elements _ => (Expr.meanings? env elements).map (· >>= I.tuple)
  | .unary op operand _ =>
    if op = .neg ∧ operand.isMinMagnitude then some (I.constant (.int Int64.minValue))
    else (operand.meaning? env).map (· >>= I.unary op.mnemonic)
  | .binary op left right _ =>
    (left.meaning? env).bind fun x => (right.meaning? env).map fun y =>
      x >>= fun l => y >>= fun r => I.binary op.mnemonic l r

def Expr.meanings? (env : Env V) : List Expr → Option (m (List V))
  | [] => some (pure [])
  | e :: es =>
    (e.meaning? env).bind fun x => (Expr.meanings? env es).map fun xs =>
      x >>= fun value => xs >>= fun values => pure (value :: values)

end

/-- The environment behind a statement. A name has its value only behind the statement that binds it. -/
def Statement.meaning? (env : Env V) : Statement → Option (m (Env V))
  | .letIn (.ident text _) value _ =>
    (value.meaning? I env).map (· >>= fun x => pure (env.set (Scope.key text) x))
  | .letIn (.placeholder _) value _ | .expr value _ => (value.meaning? I env).map (· >>= fun _ => pure env)

/-- The environment behind statements in order; none once a statement has no meaning. -/
def evaluate : List Statement → Env V → m (Option (Env V))
  | [], env => pure (some env)
  | s :: ss, env =>
    match s.meaning? I env with
    | none => pure none
    | some next => next >>= evaluate ss

end

def Statement.bound? : Statement → Option Bytes
  | .letIn (.ident text _) _ _ => some text
  | _ => none

/-! ## Literals push what they denote -/

theorem charOf_toNat (c : Char) : Instr.charOf (Int64.ofInt c.toNat) = c := by
  have valid : c.toNat < 0xD800 ∨ 0xDFFF < c.toNat ∧ c.toNat < 0x110000 := c.valid
  have word : (Int64.ofInt c.toNat).toUInt64.toNat = c.toNat := by
    have fits : c.toNat < UInt64.size := by simp only [UInt64.size]; omega
    rw [Int64.ofInt_eq_ofNat, Int64.toUInt64_ofNat', UInt64.toNat_ofNat_of_lt' fits]
  unfold Instr.charOf
  rw [word, Nat.mod_eq_of_lt (by omega)]
  simp only [Char.ofNat_toNat]
  rw [if_pos (by omega)]

theorem quotedText?_of_unescape {raw text : Bytes} {span : Span} (h : unescape raw span = .ok text) :
    quotedText? raw = some text := by
  unfold unescape at h
  unfold quotedText?
  split at h
  · cases h
  · next long =>
    rw [if_neg long]
    split at h
    · next decoded =>
      cases h
      rw [decoded]
      rfl
    · cases h

/-- The instruction of a literal pushes the constant that the literal denotes. -/
theorem constant?_of_literalInstr {kind : LiteralKind} {raw : Bytes} {span : Span} {i : Instr}
    (h : literalInstr (.known kind) raw span = .ok i) :
    ∃ k, kind.constant? raw = some k ∧ i.constant? = some k := by
  cases kind with
  | int =>
    simp only [literalInstr, instrOf] at h
    split at h
    · next n read =>
      cases h
      exact ⟨.int n, by rw [LiteralKind.constant?, read]; rfl, rfl⟩
    · cases h
    · cases h
  | decimal | exponent =>
    simp only [literalInstr, instrOf] at h
    split at h
    · next x read =>
      cases h
      exact ⟨.float x, by rw [LiteralKind.constant?, read]; rfl, rfl⟩
    · cases h
    · cases h
  | bool =>
    cases h
    refine ⟨_, rfl, ?_⟩
    by_cases is : raw = "true" <;> simp [Instr.constant?, is]
  | char =>
    simp only [literalInstr, instrOf] at h
    split at h
    · cases h
    · next text decoded =>
      split at h
      · next p single =>
        cases h
        refine ⟨.char p.shown, ?_, ?_⟩
        · rw [LiteralKind.constant?, quotedText?_of_unescape decoded]
          simp [single]
        · simp [Instr.constant?, charOf_toNat]
      · cases h
  | string =>
    simp only [literalInstr, instrOf] at h
    cases decoded : unescape raw span with
    | error f =>
      rw [decoded] at h
      cases h
    | ok text =>
      rw [decoded] at h
      cases h
      exact ⟨.string text, by rw [LiteralKind.constant?, quotedText?_of_unescape decoded]; rfl, rfl⟩

/-! ## Code computes meaning -/

section
variable {m : Type u → Type v} [Monad m] [LawfulMonad m] {V : Type u} {I : Interpretation m V}
  {env : Env V} {scope : Scope}

/-- Every name of the scope has a value. -/
def Covers (env : Env V) (scope : Scope) : Prop := ∀ name ∈ scope, (env name).isSome

theorem lowerLiteral_computes {kind : LiteralKind} {raw : Bytes} {span : Span}
    (done : (lowerLiteral (.known kind) raw span).outcome = .done) :
    ∃ k, kind.constant? raw = some k ∧
      I.Computes env (lowerLiteral (.known kind) raw span).code (I.constant k) := by
  rw [lowerLiteral_eq] at done ⊢
  unfold Lowered.ofInstr at done ⊢
  split at done
  · next i pushed =>
    obtain ⟨k, denoted, pushes⟩ := constant?_of_literalInstr pushed
    exact ⟨k, denoted, Interpretation.computes_constant pushes⟩
  · cases done

theorem Name.lower_computes {n : Name} (covers : Covers env scope)
    (done : (n.lower scope).outcome = .done) :
    ∃ x, (Expr.name n).meaning? I env = some x ∧ I.Computes env (n.lower scope).code x := by
  cases n with
  | placeholder span => cases done
  | ident text span =>
    rw [Name.lower] at done ⊢
    split at done
    · next bound =>
      obtain ⟨value, known⟩ := Option.isSome_iff_exists.1 (covers _ (List.contains_iff_mem.1 bound))
      refine ⟨pure value, by rw [Expr.meaning?, known]; rfl, ?_⟩
      rw [if_pos bound]
      exact Interpretation.computes_load rfl known
    · cases done

mutual

/-- The code of an expression computes its meaning. -/
theorem Expr.lower_computes (covers : Covers env scope) : ∀ e : Expr, e.form.Formed (2 ^ 32) →
    (e.lower scope).outcome = .done →
    ∃ x, e.meaning? I env = some x ∧ I.Computes env (e.lower scope).code x
  | .literal kind raw span, _, done => by
    rw [Expr.lower] at done ⊢
    obtain ⟨k, denoted, computes⟩ := lowerLiteral_computes (I := I) done
    exact ⟨_, by rw [Expr.meaning?, denoted]; rfl, computes⟩
  | .name n, _, done => by
    rw [Expr.lower] at done ⊢
    exact Name.lower_computes covers done
  | .path segments, _, done => by
    rw [Expr.lower] at done
    cases done
  | .tuple elements span, ⟨short, formed⟩, done => by
    rw [Expr.lower] at done ⊢
    have parts := (Lowered.andThen_eq_done.1 done).1
    obtain ⟨xs, meant, collects⟩ := Expr.lowerAll_collects covers elements formed parts
    rw [Lowered.code_andThen parts, Expr.meaning?, meant]
    refine ⟨_, rfl, collects.tuple rfl ?_⟩
    rw [Expr.forms_eq_map, List.length_map] at short
    exact UInt32.toNat_ofNat_of_lt' short
  | .unary op operand span, ⟨_, formed⟩, done => by
    rw [Expr.lower] at done ⊢
    rw [Expr.meaning?]
    split at done
    · -- no operand is computed here: the literal alone is out of range
      next least =>
      rw [if_pos least, if_pos least]
      exact ⟨_, rfl, Interpretation.computes_constant rfl⟩
    · next least =>
      rw [if_neg least, if_neg least]
      have part := (Lowered.andThen_eq_done.1 done).1
      obtain ⟨x, meant, computes⟩ := Expr.lower_computes covers operand formed part
      rw [Lowered.code_andThen part, meant]
      exact ⟨_, rfl, computes.unary rfl⟩
  | .binary op left right span, ⟨_, formed, formed'⟩, done => by
    rw [Expr.lower] at done ⊢
    have operands := (Lowered.andThen_eq_done.1 done).1
    obtain ⟨first, second⟩ := Lowered.andThen_eq_done.1 operands
    obtain ⟨x, meant, computes⟩ := Expr.lower_computes covers left formed first
    obtain ⟨y, meant', computes'⟩ := Expr.lower_computes covers right formed' second
    rw [Lowered.code_andThen operands, Lowered.code_andThen first, Expr.meaning?, meant, meant']
    exact ⟨_, rfl, computes.binary computes' rfl⟩

theorem Expr.lowerAll_collects (covers : Covers env scope) : ∀ es : List Expr,
    ExprForm.AllFormed (2 ^ 32) (Expr.forms es) → (Expr.lowerAll scope es).outcome = .done →
    ∃ xs, Expr.meanings? I env es = some xs ∧ I.Collects env es.length (Expr.lowerAll scope es).code xs
  | [], _, _ => by
    rw [Expr.lowerAll, Expr.meanings?]
    exact ⟨_, rfl, Interpretation.collects_nil⟩
  | e :: es, ⟨formed, formed'⟩, done => by
    rw [Expr.lowerAll] at done ⊢
    obtain ⟨head, tail⟩ := Lowered.andThen_eq_done.1 done
    obtain ⟨x, meant, computes⟩ := Expr.lower_computes covers e formed head
    obtain ⟨xs, meant', collects⟩ := Expr.lowerAll_collects covers es formed' tail
    rw [Lowered.code_andThen head, Expr.meanings?, meant, meant']
    exact ⟨_, rfl, computes.collects collects⟩

end

theorem Expr.lower_then_runs (covers : Covers env scope) {e : Expr} (formed : e.form.Formed (2 ^ 32))
    {last : Instr} {span : Span}
    (done : ((e.lower scope).andThen (.emit last span)).outcome = .done) :
    ∃ x : m V, e.meaning? I env = some x ∧ ∀ rest,
      I.run (((e.lower scope).andThen (.emit last span)).code ++ rest) ⟨[], env⟩ =
        x >>= fun value => I.run ({ last with line := span.line } :: rest) ⟨[value], env⟩ := by
  have first := (Lowered.andThen_eq_done.1 done).1
  obtain ⟨x, meant, computes⟩ := Expr.lower_computes (I := I) covers e formed first
  refine ⟨x, meant, fun rest => ?_⟩
  rw [Lowered.code_andThen first, List.append_assoc]
  exact computes _ []

theorem Covers.bind {text : Bytes} (covers : Covers env scope)
    (stable : Scope.key (Scope.key text) = Scope.key text) (value : V) :
    Covers (env.set (Scope.key text) value) (scope.bind (Scope.key text)) := by
  intro name hname
  rcases (Scope.mem_bindBy stable).1 hname with old | rfl
  · exact Env.isSome_set (covers name old) ..
  · rw [Env.set_same]
    rfl

/-- A statement that is taken over leaves an empty stack and the environment it means, in which the
names bound so far have values. -/
theorem Statement.lower_runs {c : Context} (covers : Covers env c.scope) {s : Statement}
    (formed : s.value.form.Formed (2 ^ 32))
    (stable : ∀ text, s.bound? = some text → Scope.key (Scope.key text) = Scope.key text)
    (done : (s.lower c.scope).lowered.outcome = .done) :
    ∃ (x : m V) (after : V → Env V), s.meaning? I env = some (x >>= fun value => pure (after value)) ∧
      (∀ rest, I.run ((s.lower c.scope).lowered.code ++ rest) ⟨[], env⟩ =
        x >>= fun value => I.run rest ⟨[], after value⟩) ∧
      ∀ value, Covers (after value) (c.commit (s.lower c.scope)).scope := by
  cases s with
  | expr value span =>
    replace formed : value.form.Formed (2 ^ 32) := formed
    obtain ⟨x, meant, runs⟩ := Expr.lower_then_runs (I := I) covers formed done
    refine ⟨x, fun _ => env, by rw [Statement.meaning?, meant]; rfl, fun rest => ?_, fun _ => covers⟩
    exact (runs rest).trans (by simp [Interpretation.run, Interpretation.step])
  | letIn n value span =>
    replace formed : value.form.Formed (2 ^ 32) := formed
    cases n with
    | placeholder place =>
      obtain ⟨x, meant, runs⟩ := Expr.lower_then_runs (I := I) covers formed done
      refine ⟨x, fun _ => env, by rw [Statement.meaning?, meant]; rfl, fun rest => ?_, fun _ => covers⟩
      exact (runs rest).trans (by simp [Interpretation.run, Interpretation.step])
    | ident text place =>
      obtain ⟨x, meant, runs⟩ := Expr.lower_then_runs (I := I) covers formed done
      refine ⟨x, env.set (Scope.key text), by rw [Statement.meaning?, meant]; rfl, fun rest => ?_,
        fun value => covers.bind (stable text rfl) value⟩
      exact (runs rest).trans (by simp [Interpretation.run, Interpretation.step])

end

end LetStack.Ast

namespace LetStack.Lower
open Ast Machine Grammar

universe u v

variable {m : Type u → Type v} [Monad m] [LawfulMonad m] {V : Type u} {I : Interpretation m V}

/-- The code that a run adds does what the statements without a fault mean. -/
theorem Walked.runs {opts : Options} {b : Builder} {c c' : Context} {ids : List NodeId}
    {reports : List (Option Fault)} (h : Walked opts b c ids reports c') {ss : List Statement}
    (lowers : (ids.map fun id scope => lowerNode b scope id) = ss.map fun s scope => s.lower scope)
    (formed : ∀ s ∈ ss, s.value.form.Formed (2 ^ 32))
    (stable : ∀ s ∈ ss, ∀ text, s.bound? = some text → Scope.key (Scope.key text) = Scope.key text) :
    ∃ code, c'.program.instrs = c.program.instrs ++ code ∧
      ∀ env : Env V, Covers env c.scope → ∃ x : m (Env V),
        evaluate I (succeeding ss reports) env = some <$> x ∧
        I.run code ⟨[], env⟩ = (fun after => some ⟨[], after⟩) <$> x := by
  induction h generalizing ss with
  | nil =>
    cases List.map_eq_nil_iff.1 lowers.symm
    refine ⟨[], (List.append_nil _).symm, fun env _ => ⟨pure env, ?_, ?_⟩⟩
    · simp [succeeding, evaluate]
    · simp [Interpretation.run]
  | @done c c' id ids reports out _ ih =>
    obtain ⟨s, ss, rfl, same, lowers⟩ := List.map_eq_cons_iff.1 lowers.symm
    have same : lowerNode b c.scope id = s.lower c.scope := (congrFun same c.scope).symm
    rw [same] at out ih
    obtain ⟨code, instrs, runs⟩ := ih lowers.symm (fun t ht => formed t (.tail _ ht))
      fun t ht => stable t (.tail _ ht)
    refine ⟨(s.lower c.scope).lowered.code ++ code, ?_, fun env covers => ?_⟩
    · rw [instrs, Context.commit_instrs, List.append_assoc]
    · obtain ⟨x, after, meant, ran, covers'⟩ :=
        Statement.lower_runs (I := I) covers (formed s (.head _)) (stable s (.head _)) out
      -- what follows depends on the value that was bound, so its computation is chosen for every value
      have next : ∀ value, ∃ y : m (Env V), _ := fun value => runs (after value) (covers' value)
      obtain ⟨y, hy⟩ := Classical.axiomOfChoice next
      refine ⟨x >>= y, ?_, ?_⟩
      · simp [succeeding, evaluate, meant, (hy _).1]
      · simp [ran, (hy _).2]
  | @fault c c' id ids reports f out _ ih =>
    obtain ⟨s, ss, rfl, _, lowers⟩ := List.map_eq_cons_iff.1 lowers.symm
    obtain ⟨code, instrs, runs⟩ := ih lowers.symm (fun t ht => formed t (.tail _ ht))
      fun t ht => stable t (.tail _ ht)
    exact ⟨code, instrs.trans (by rw [Context.failed_instrs]), runs⟩

/-- Tokens that parse are put in as a module, and a walk over it that is not strict reaches every statement. From an
empty stack and an empty environment its code runs without getting stuck to an empty stack and the environment that the
statements without a fault evaluate to, which all have a meaning where they stand. It is needed that normalizing a bound
name twice is normalizing it once. -/
theorem lowered_program_has_meaning_of_statements (I : Interpretation m V) {opts : Options}
    (lenient : opts.strict = false) {toks : List Token} (short : toks.length < 2 ^ 30)
    {statements : List Statement} (parsed : parseModule toks = .ok statements)
    (stable : ∀ s ∈ statements, ∀ text, s.bound? = some text →
      Scope.key (Scope.key text) = Scope.key text)
    (b : Builder) {c : Context} (noCode : c.program.instrs = []) (noName : c.scope = []) :
    ∃ id, (buildModule b toks).1 = .ok id ∧
    let walk := walkModule opts (buildModule b toks).2 c id
    walk.ending = .finished ∧ walk.reports.length = statements.length ∧
    ∃ x : m (Env V),
      evaluate I (succeeding statements walk.reports) .empty = some <$> x ∧
      I.run walk.context.program.instrs ⟨[], .empty⟩ = (fun env => some ⟨[], env⟩) <$> x := by
  obtain ⟨id, mod, built, stored⟩ := buildModule_stored b parsed
  have lowers := stored.lowers parsed
  refine ⟨id, built, ?_⟩
  obtain ⟨walked, rest, split, run, finished | ⟨_, _, _, strict⟩⟩ := walkModule_parsed opts c stored parsed
  · obtain ⟨ending, rfl⟩ := finished
    rw [List.append_nil] at split
    rw [split] at lowers
    have formed := formed_of_parsed parsed (Nat.lt_trans short (by decide : 2 ^ 30 < 2 ^ 32))
    obtain ⟨code, instrs, runs⟩ := run.runs (I := I) lowers formed stable
    refine ⟨ending, run.length_eq.trans (length_eq_of_lowers lowers), ?_⟩
    rw [instrs, noCode, List.nil_append]
    refine runs .empty ?_
    rw [noName]
    exact nofun
  · rw [lenient] at strict
    cases strict

/-- `let a = -9223372036854775808; b; a + 1;`, where `b` has no value. -/
private def sampleTokens : List Token :=
  [{ kind := .kwLet }, { kind := .ident, text := [0x61] }, { kind := .assign }, { kind := .minus },
   { kind := .intLit, text := "9223372036854775808" }, { kind := .semicolon },
   { kind := .ident, text := [0x62] }, { kind := .semicolon },
   { kind := .ident, text := [0x61] }, { kind := .plus }, { kind := .intLit, text := "1" },
   { kind := .semicolon }]

private def sampleStatements : List Statement :=
  [.letIn (.ident [0x61] {}) (.unary .neg (.literal .int "9223372036854775808" {}) {}) {},
   .expr (.name (.ident [0x62] {})) {},
   .expr (.binary .add (.name (.ident [0x61] {})) (.literal .int "1" {}) {}) {}]

/-- Values are numbers of constants. -/
private def counting : Interpretation Id Nat where
  constant _ := pure 1
  unary _ x := pure x
  binary _ x y := pure (x + y)
  tuple xs := pure xs.sum

theorem sample_program_has_meaning :
    parseModule sampleTokens = .ok sampleStatements ∧
    ∃ (id : ModuleId) (env : Env Nat), (buildModule {} sampleTokens).1 = .ok id ∧
      let walk := walkModule {} (buildModule {} sampleTokens).2 {} id
      evaluate counting (succeeding sampleStatements walk.reports) .empty = some env ∧
      counting.run walk.context.program.instrs ⟨[], .empty⟩ = some ⟨[], env⟩ := by
  have parsed : parseModule sampleTokens = .ok sampleStatements := by cbv
  have stable : ∀ s ∈ sampleStatements, ∀ text, s.bound? = some text →
      Scope.key (Scope.key text) = Scope.key text := by
    intro s hs text bound
    have only : text = [0x61] := by
      simp only [sampleStatements, List.mem_cons, List.not_mem_nil, or_false] at hs
      rcases hs with rfl | rfl | rfl <;> cases bound
      rfl
    rw [only]
    decide
  obtain ⟨id, built, _, _, env, meaning, runs⟩ := @lowered_program_has_meaning_of_statements Id _ _ Nat counting
    {} rfl _ (by decide) _ parsed stable {} {} rfl rfl
  exact ⟨parsed, id, env, built, meaning, runs⟩

end LetStack.Lower
