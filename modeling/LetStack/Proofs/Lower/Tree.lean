import LetStack.Proofs.Grammar.Appending
import LetStack.Proofs.Lower.Slices
import LetStack.Proofs.Lower.Isolation

/-!
`Expr.lower` lowers by recursion on the tree. A number that stands for a well-formed expression is lowered alike by
`lowerExpr` (`Holds.lowerExpr_eq`), and so is a node by `lowerNode` (`HoldsNode.lowerNode_eq`). A walk over a parsed
module meets no broken tree, so it ends early only where it is strict (`walkModule_parsed`).
-/

namespace LetStack

namespace Lower.Lowered

theorem andThen_eq_done {a b : Lowered} :
    (a.andThen b).outcome = .done ↔ a.outcome = .done ∧ b.outcome = .done := by
  cases h : a.outcome <;> simp [andThen, h]

theorem code_andThen {a b : Lowered} (h : a.outcome = .done) : (a.andThen b).code = a.code ++ b.code := by
  simp [andThen, h]

theorem andThen_outcome {a b : Lowered} {P : Outcome → Prop} (ha : P a.outcome) (hb : P b.outcome) :
    P (a.andThen b).outcome := by
  cases h : a.outcome <;> simp_all [andThen]

end Lower.Lowered

namespace Ast
open Lower Machine

/-- Whether an expression is the integer literal 2^63. -/
def Expr.isMinMagnitude : Expr → Bool
  | .literal .int raw _ => Lower.isMinMagnitude raw
  | _ => false

def Name.lower (scope : Scope) : Name → Lowered
  | .ident text span =>
    if scope.isBound text then .emit { op := .load, str := Scope.key text } span
    else .fault (.user .undefinedName span ("cannot find `" ++ text ++ "` in this scope"))
  | .placeholder span => .fault (.user .placeholderValue span "`_` cannot be used as a value")

mutual

/-- Operands from left to right, then the operator. -/
def Expr.lower (scope : Scope) : Expr → Lowered
  | .literal kind raw span => lowerLiteral (.known kind) raw span
  | .name n => n.lower scope
  | .path segments => .fault (.unimplemented (Expr.path segments).span "path")
  | .tuple elements span =>
    (Expr.lowerAll scope elements).andThen
      (.emit { op := .tuple, count := UInt32.ofNat elements.length } span)
  | .unary op operand span =>
    if op = .neg ∧ operand.isMinMagnitude then .emit { op := .pushInt, int := Int64.minValue } span
    else (operand.lower scope).andThen (.emit { op := .unary, str := op.mnemonic } span)
  | .binary op left right span =>
    ((left.lower scope).andThen (right.lower scope)).andThen
      (.emit { op := .binary, str := op.mnemonic } span)

def Expr.lowerAll (scope : Scope) : List Expr → Lowered
  | [] => {}
  | e :: es => (e.lower scope).andThen (Expr.lowerAll scope es)

end

def Statement.lower (scope : Scope) : Statement → LoweredStmt
  | .letIn (.ident text _) value span =>
    ⟨(value.lower scope).andThen (.emit { op := .store, str := Scope.key text } span), some (Scope.key text)⟩
  | .letIn (.placeholder _) value span | .expr value span =>
    ⟨(value.lower scope).andThen (.emit { op := .pop } span), none⟩

/-! ## Numbers are lowered as what they stand for -/

namespace Builder

variable {b : Builder} {scope : Scope}

theorem text_eq_ok {id : StringId} {s : Bytes} (h : b.strings.lookup? id = some s) : b.text id = .ok s := by
  rw [text, h]

theorem HoldsName.nameText_eq {text : Bytes} {span : Span} {entry : NameEntry}
    (h : b.HoldsName (.ident text span) entry) : b.nameText entry = .ok text := by
  obtain ⟨id, rfl, ht⟩ := h
  exact text_eq_ok ht

theorem HoldsName.lowerName_eq {n : Name} {entry : NameEntry} (h : b.HoldsName n entry) :
    lowerName b scope entry n.span = n.lower scope := by
  cases n with
  | ident text span =>
    have known := h.nameText_eq
    obtain ⟨id, rfl, ht⟩ := h
    rw [lowerName, known]
    rfl
  | placeholder span =>
    cases h
    rfl

theorem Holds.minIntOperand_eq {e : Expr} {id : ExprId} (h : b.Holds e id) :
    minIntOperand b id = .ok e.isMinMagnitude := by
  cases e with
  | literal kind raw span =>
    obtain ⟨data, text, he, hd, ht⟩ := h
    cases kind <;> simp [minIntOperand, he, payload, hd, text_eq_ok ht, Except.map, Expr.isMinMagnitude]
  | name n =>
    obtain ⟨data, entry, he, _⟩ := h
    simp [minIntOperand, he, Expr.isMinMagnitude]
  | path segments =>
    obtain ⟨data, entries, he, _⟩ := h
    simp [minIntOperand, he, Expr.isMinMagnitude]
  | tuple elements span =>
    obtain ⟨data, ids, he, _⟩ := h
    simp [minIntOperand, he, Expr.isMinMagnitude]
  | unary op operand span =>
    obtain ⟨data, right, he, _⟩ := h
    simp [minIntOperand, he, Expr.isMinMagnitude]
  | binary op l r span =>
    obtain ⟨data, left, right, he, _⟩ := h
    simp [minIntOperand, he, Expr.isMinMagnitude]

theorem HoldsAll.length_eq {es : List Expr} {ids : List ExprId} (h : b.HoldsAll es ids) :
    ids.length = es.length := by
  induction es generalizing ids with
  | nil =>
    cases h
    rfl
  | cons e es ih =>
    obtain ⟨id, rest, rfl, _, hes⟩ := h
    rw [List.length_cons, List.length_cons, ih hes]

mutual

/-- The number of an expression is lowered as the expression, given depth enough and operators with
the operands they take. -/
theorem Holds.lowerExpr_eq {bound : Nat} : ∀ {e : Expr} {id : ExprId} {depth : Nat}, b.Holds e id →
    e.height < depth + 1 → e.form.Formed bound → lowerExpr b scope depth id = e.lower scope
  | .literal kind raw span, id, depth + 1, ⟨data, text, he, hd, ht⟩, _, _ => by
    simp [lowerExpr, he, payload, hd, text_eq_ok ht, Lowered.ofData, Expr.lower]
  | .name n, id, depth + 1, ⟨data, entry, he, hd, hn⟩, _, _ => by
    simp [lowerExpr, he, payload, hd, Lowered.ofData, hn.lowerName_eq, Expr.lower]
  | .path segments, id, depth + 1, ⟨data, entries, he, hd, hn⟩, _, _ => by
    simp [lowerExpr, he, Expr.lower]
  | .tuple elements span, id, depth + 1, ⟨data, ids, he, hd, hall⟩, hh, hf => by
    have parts := HoldsAll.all_lowerExpr_eq hall (Nat.lt_of_succ_lt_succ hh) hf.2
    simp [lowerExpr, he, payload, hd, Lowered.ofData, parts, hall.length_eq, Expr.lower]
  | .unary op operand span, id, depth + 1, ⟨data, right, he, hd, ho⟩, hh, ⟨hop, hf⟩ => by
    have part := Holds.lowerExpr_eq ho (Nat.lt_of_succ_lt_succ hh) hf
    by_cases neg : op = .neg
    · simp [lowerExpr, he, payload, hd, Lowered.ofData, neg, ho.minIntOperand_eq, part, Expr.lower,
        Tag.isUnary, Operator.isUnary, Tag.mnemonic, Tag.nameOr]
    · simp [lowerExpr, he, payload, hd, Lowered.ofData, neg, part, hop, Expr.lower,
        Tag.isUnary, Tag.mnemonic, Tag.nameOr]
  | .binary op l r span, id, depth + 1, ⟨data, left, right, he, hd, hl, hr⟩, hh, ⟨hop, hfl, hfr⟩ => by
    have hh : max l.height r.height < depth + 1 := Nat.lt_of_succ_lt_succ hh
    have first := Holds.lowerExpr_eq hl (Nat.lt_of_le_of_lt (Nat.le_max_left ..) hh) hfl
    have second := Holds.lowerExpr_eq hr (Nat.lt_of_le_of_lt (Nat.le_max_right ..) hh) hfr
    have neg : op ≠ .neg := by
      rintro rfl
      cases hop
    simp [lowerExpr, he, payload, hd, Lowered.ofData, neg, first, second, hop, Expr.lower,
      Tag.isUnary, Tag.mnemonic, Tag.nameOr]

theorem HoldsAll.all_lowerExpr_eq {bound : Nat} : ∀ {es : List Expr} {ids : List ExprId} {depth : Nat},
    b.HoldsAll es ids → Expr.heights es < depth + 1 → ExprForm.AllFormed bound (Expr.forms es) →
    Lowered.all (ids.map (lowerExpr b scope depth)) = Expr.lowerAll scope es
  | [], _, _, h, _, _ => by
    cases h
    simp [Lowered.all, Expr.lowerAll]
  | e :: es, _, depth, ⟨id, rest, hids, he, hes⟩, hh, ⟨hf, hfs⟩ => by
    have head := Holds.lowerExpr_eq he (Nat.lt_of_le_of_lt (Nat.le_max_left ..) hh) hf
    have tail := HoldsAll.all_lowerExpr_eq hes (Nat.lt_of_le_of_lt (Nat.le_max_right ..) hh) hfs
    simp [hids, Lowered.all, head, tail, Expr.lowerAll]

end

theorem HoldsNode.lowerNode_eq {bound : Nat} {s : Statement} {id : NodeId} (h : b.HoldsNode s id)
    (room : s.value.height < b.depthBound) (formed : s.value.form.Formed bound) :
    lowerNode b scope id = s.lower scope := by
  obtain ⟨stmt, hn, hs⟩ := h
  cases s with
  | expr value span =>
    obtain ⟨expr, hs, he⟩ := hs
    have lowered : lowerExpr b scope b.depthBound expr = value.lower scope :=
      he.lowerExpr_eq (Nat.lt_succ_of_lt room) formed
    simp [lowerNode, lowerStmt, hn, hs, lowered, Statement.lower]
  | letIn n value span =>
    obtain ⟨expr, entry, hs, bound, he⟩ := hs
    have lowered : lowerExpr b scope b.depthBound expr = value.lower scope :=
      he.lowerExpr_eq (Nat.lt_succ_of_lt room) formed
    cases n with
    | ident text place =>
      have known := bound.nameText_eq
      obtain ⟨text, rfl, ht⟩ := bound
      simp [lowerNode, lowerStmt, hn, hs, lowered, known, Statement.lower]
    | placeholder place =>
      cases bound
      simp [lowerNode, lowerStmt, hn, hs, lowered, Statement.lower]

theorem HoldsNodes.map_lowerNode {bound : Nat} {ss : List Statement} {ids : List NodeId}
    (h : b.HoldsNodes ss ids) (room : ∀ s ∈ ss, s.value.height < b.depthBound)
    (formed : ∀ s ∈ ss, s.value.form.Formed bound) :
    (ids.map fun id scope => lowerNode b scope id) = ss.map fun s scope => s.lower scope := by
  induction ss generalizing ids with
  | nil =>
    cases h
    rfl
  | cons s ss ih =>
    obtain ⟨id, rest, rfl, hs, hss⟩ := h
    have tail := ih hss (fun t ht => room t (.tail _ ht)) fun t ht => formed t (.tail _ ht)
    rw [List.map_cons, List.map_cons, tail]
    congr 1
    funext scope
    exact hs.lowerNode_eq (room s (.head _)) (formed s (.head _))

end Builder

/-! ## Modules that were parsed -/

theorem Statement.value_form (s : Statement) : s.form.value = s.value.form := by
  cases s <;> rfl

variable {toks : List Token} {statements : List Statement}

/-- In a module that was parsed every operator has the operands it takes, and tuples are shorter than
the module. -/
theorem formed_of_parsed (parsed : Grammar.parseModule toks = .ok statements) {bound : Nat}
    (short : toks.length < bound) : ∀ s ∈ statements, s.value.form.Formed bound := by
  intro s hs
  have formed := (Grammar.parseModule_sound parsed).1.formed short
  rw [← s.value_form]
  exact formed _ (List.mem_map_of_mem hs)

theorem Builder.StoredModule.lowers {b : Builder} {id : ModuleId} {m : ModuleEntry}
    (stored : b.StoredModule statements id m) (parsed : Grammar.parseModule toks = .ok statements) :
    (m.nodes.map fun id scope => lowerNode b scope id) = statements.map fun s scope => s.lower scope :=
  stored.holds.map_lowerNode stored.room (formed_of_parsed parsed (Nat.lt_succ_self _))

/-! ## How trees are lowered -/

/-- What holds of completion and of the faults that names and paths meet. -/
structure Ordinary (P : Outcome → Prop) : Prop where
  done : P .done
  undefinedName : ∀ span message, P (.fault (.user .undefinedName span message))
  placeholderValue : ∀ span message, P (.fault (.user .placeholderValue span message))
  unimplemented : ∀ span feature, P (.fault (.unimplemented span feature))

section
variable {P : Outcome → Prop} (ordinary : Ordinary P) (scope : Scope)
include ordinary

theorem Name.lower_outcome (n : Name) : P (n.lower scope).outcome := by
  cases n with
  | ident text span =>
    rw [Name.lower]
    split
    · exact ordinary.done
    · exact ordinary.undefinedName ..
  | placeholder span => exact ordinary.placeholderValue ..

mutual

theorem Expr.lower_outcome : ∀ e : Expr,
    (∀ l ∈ e.literals, P (lowerLiteral (.known l.kind) l.raw l.span).outcome) → P (e.lower scope).outcome
  | .literal kind raw span, h => by
    rw [Expr.lower]
    exact h ⟨kind, raw, span⟩ (by simp [Expr.literals])
  | .name n, _ => by
    rw [Expr.lower]
    exact n.lower_outcome ordinary scope
  | .path segments, _ => by
    rw [Expr.lower]
    exact ordinary.unimplemented ..
  | .tuple elements span, h => by
    rw [Expr.lower]
    rw [Expr.literals] at h
    exact Lowered.andThen_outcome (Expr.lowerAll_outcome elements h) ordinary.done
  | .unary op operand span, h => by
    rw [Expr.lower]
    rw [Expr.literals] at h
    split
    · exact ordinary.done
    · exact Lowered.andThen_outcome (Expr.lower_outcome operand h) ordinary.done
  | .binary op left right span, h => by
    rw [Expr.lower]
    rw [Expr.literals] at h
    have first := Expr.lower_outcome left fun l hl => h l (List.mem_append_left _ hl)
    have second := Expr.lower_outcome right fun l hl => h l (List.mem_append_right _ hl)
    exact Lowered.andThen_outcome (Lowered.andThen_outcome first second) ordinary.done

theorem Expr.lowerAll_outcome : ∀ es : List Expr,
    (∀ l ∈ Expr.allLiterals es, P (lowerLiteral (.known l.kind) l.raw l.span).outcome) →
    P (Expr.lowerAll scope es).outcome
  | [], _ => by
    rw [Expr.lowerAll]
    exact ordinary.done
  | e :: es, h => by
    rw [Expr.lowerAll]
    rw [Expr.allLiterals] at h
    have head := Expr.lower_outcome e fun l hl => h l (List.mem_append_left _ hl)
    have tail := Expr.lowerAll_outcome es fun l hl => h l (List.mem_append_right _ hl)
    exact Lowered.andThen_outcome head tail

end

theorem Statement.lower_outcome (s : Statement)
    (h : ∀ l ∈ s.value.literals, P (lowerLiteral (.known l.kind) l.raw l.span).outcome) :
    P (s.lower scope).lowered.outcome := by
  have value := s.value.lower_outcome ordinary scope h
  cases s with
  | expr value span => exact Lowered.andThen_outcome value ordinary.done
  | letIn n value span => cases n <;> exact Lowered.andThen_outcome value ordinary.done

end

theorem lowerLiteral_not_broken (kind : Tag LiteralKind) (raw : Bytes) (span : Span) (d : Defect) :
    (lowerLiteral kind raw span).outcome ≠ .broken d := by
  rw [lowerLiteral_eq]
  unfold Lowered.ofInstr
  split <;> exact Outcome.noConfusion

theorem Statement.lower_not_broken (scope : Scope) (s : Statement) (d : Defect) :
    (s.lower scope).lowered.outcome ≠ .broken d := by
  have ordinary : Ordinary (· ≠ .broken d) := ⟨nofun, fun _ _ => nofun, fun _ _ => nofun, fun _ _ => nofun⟩
  exact s.lower_outcome ordinary scope fun _ _ => lowerLiteral_not_broken _ _ _ d

section
variable {b : Builder} {ids : List NodeId} {ss : List Statement}
  (lowers : (ids.map fun id scope => lowerNode b scope id) = ss.map fun s scope => s.lower scope)
include lowers

theorem length_eq_of_lowers : ids.length = ss.length := by
  have lengths := congrArg List.length lowers
  rwa [List.length_map, List.length_map] at lengths

theorem exists_statement_of_lowers {id : NodeId} (hid : id ∈ ids) :
    ∃ s ∈ ss, ∀ scope, lowerNode b scope id = s.lower scope := by
  have mem : (fun scope => lowerNode b scope id) ∈ ss.map fun s scope => s.lower scope := by
    rw [← lowers]
    exact List.mem_map_of_mem hid
  obtain ⟨s, hs, same⟩ := List.mem_map.1 mem
  exact ⟨s, hs, fun scope => (congrFun same scope).symm⟩

theorem lowerNode_not_broken :
    ∀ id ∈ ids, ∀ scope d, (lowerNode b scope id).lowered.outcome ≠ .broken d := by
  intro id hid scope d
  obtain ⟨s, _, same⟩ := exists_statement_of_lowers lowers hid
  rw [same]
  exact s.lower_not_broken scope d

end

/-- The walk over a parsed module is the run over its first nodes: over all of them, unless it is
strict and stops. -/
theorem walkModule_parsed (opts : Options) {b : Builder} (c : Context) {id : ModuleId} {m : ModuleEntry}
    (stored : b.StoredModule statements id m) (parsed : Grammar.parseModule toks = .ok statements) :
    ∃ walked rest, m.nodes = walked ++ rest ∧
      let walk := walkModule opts b c id
      Walked opts b c walked walk.reports walk.context ∧
      ((walk.ending = .finished ∧ rest = []) ∨
        ∃ f, walk.ending = .aborted f ∧ f.kind = .unimplemented ∧ opts.strict = true) := by
  rw [walkModule_eq stored.found]
  exact walkNodes_cases (walkNodes_not_broken (lowerNode_not_broken (stored.lowers parsed)))

end Ast

end LetStack
