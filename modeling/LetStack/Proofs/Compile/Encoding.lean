import LetStack.Proofs.Compile.Failing
import LetStack.Proofs.Grammar.Placement
import LetStack.Proofs.Grammar.Wording
import LetStack.Proofs.Lower.Faults

/-!
In a source of characters the spans of tokens, trees and diagnostics start and end between characters, and messages
are texts of characters. The exception is an unknown escape with a character of several bytes behind its backslash
(`compilation_keeps_characters`).
-/

namespace LetStack

/-! ## Trees -/

namespace Grammar
open Ast Rule Utf8

/-- A span that a tree holds: of a part, of the name in a statement or of the name that an expression is. -/
inductive TreeSpan (b : Builder) (m : ModuleEntry) : Span → Prop
  | part {s : Span} : PartSpan b m s → TreeSpan b m s
  | bound {way : List Nat} {id : StmtId} {s : StmtEntry} : b.Reached m.nodes way (.stmt id) → b.stmt? id = some s →
      TreeSpan b m s.name.span
  | name {way : List Nat} {id : ExprId} {e : ExprEntry} {n : NameEntry} : b.Reached m.nodes way (.expr id) →
      b.expr? id = some e → e.kind = .known .name → b.names.get? e.payload = some n → TreeSpan b m n.span

theorem nodes_ne_nil_of_reached {b : Builder} {nodes : List NodeId} {way : List Nat} {part : Builder.Part}
    (h : b.Reached nodes way part) : nodes ≠ [] := by
  induction h with
  | node found => exact List.ne_nil_of_mem (List.mem_of_getElem? found)
  | stmt _ _ _ ih => exact ih
  | value _ _ ih => exact ih
  | operand _ _ ih => exact ih

theorem TreeSpan.of_nil {b : Builder} {m : ModuleEntry} {s : Span} (h : TreeSpan b m s) (empty : m.nodes = []) :
    s = m.span := by
  cases h with
  | part part =>
    cases part with
    | module => rfl
    | node reached _ => exact absurd empty (nodes_ne_nil_of_reached reached)
    | stmt reached _ => exact absurd empty (nodes_ne_nil_of_reached reached)
    | expr reached _ => exact absurd empty (nodes_ne_nil_of_reached reached)
    | segment reached _ _ _ _ => exact absurd empty (nodes_ne_nil_of_reached reached)
  | bound reached _ => exact absurd empty (nodes_ne_nil_of_reached reached)
  | name reached _ _ _ => exact absurd empty (nodes_ne_nil_of_reached reached)

section
variable {src : Bytes} {toks : List Token} (aligned : ∀ tok ∈ toks, tok.span.Aligned src)
include aligned

theorem name_aligned {tok : Token} {n : Name} (h : SpellsName tok n) (member : tok ∈ toks) : n.span.Aligned src :=
  h.span ▸ aligned tok member

theorem boundName_aligned (whole : Encoded src) {b : Builder} {s : Statement} {id : StmtId} {entry : StmtEntry}
    {w : List Token} (held : b.HoldsStatement s id) (read : b.stmt? id = some entry) (spelled : SpellsStatement w s)
    (within : w ⊆ toks) : entry.name.span.Aligned src := by
  cases spelled with
  | expr _ _ =>
    -- nothing is bound, and the name that is there lies at the start
    obtain ⟨_, found, _⟩ := held
    cases found.symm.trans read
    exact ⟨boundary_zero whole, boundary_zero whole⟩
  | @letIn _ tok _ _ n _ _ _ named _ _ _ =>
    obtain ⟨_, name, found, bound, _⟩ := held
    cases found.symm.trans read
    rw [bound.span]
    exact name_aligned aligned named (within (by simp))

theorem nameExpr_aligned {b : Builder} {e : Expr} {id : ExprId} {entry : ExprEntry} {n : NameEntry}
    (held : b.Holds e id) (read : b.expr? id = some entry) (kind : entry.kind = .known .name)
    (stored : b.names.get? entry.payload = some n) (spelled : SpelledIn toks e) : n.span.Aligned src := by
  obtain ⟨payload, found⟩ := held.entry
  cases found.symm.trans read
  -- only a name has an entry of this kind
  cases e with
  | name name =>
    obtain ⟨data, entry, same, names, holds⟩ := held
    cases same.symm.trans read
    cases names.symm.trans stored
    obtain ⟨w, within, word⟩ := spelled
    obtain ⟨tok, member, named⟩ := word.fromTokens
    rw [holds.span]
    exact name_aligned aligned named (within.subset member)
  | literal kind raw span => cases kind
  | path segments => cases kind
  | tuple elements span => cases kind
  | unary op operand span => cases kind
  | binary op l r span => cases kind

/-- The spans of a tree that was parsed lie between characters, except that a module without nodes has none. -/
theorem treeSpan_aligned (whole : Encoded src) {b : Builder} {m : ModuleEntry} {ss : List Statement}
    (held : b.HoldsNodes ss m.nodes) (span : m.span = moduleSpan ss) (spelled : Repeated SpellsStatement toks ss)
    (order : Token.Ordered toks) {s : Span} (h : TreeSpan b m s) : s = .empty ∨ s.Aligned src := by
  by_cases empty : m.nodes = []
  · rw [h.of_nil empty, span]
    rw [empty] at held
    cases ss with
    | nil => exact .inl rfl
    | cons s ss =>
      obtain ⟨_, _, same, _⟩ := held
      cases same
  refine .inr ?_
  cases h with
  | part part => exact Lower.framed_aligned aligned (partSpan_framed held span empty spelled order part)
  | bound reached read =>
    obtain ⟨s, hs, held⟩ := reached_spelled held spelled reached
    obtain ⟨w, within, word⟩ := exists_statement_word spelled s hs
    exact boundName_aligned aligned whole held read word within.subset
  | name reached read kind stored =>
    obtain ⟨e, spelled, held⟩ := reached_spelled held spelled reached
    exact nameExpr_aligned aligned held read kind stored spelled

end

end Grammar

/-! ## Diagnostics -/

namespace Compilation
open Ast Grammar Lower Utf8

/-- A diagnostic and its notes in a source of characters. -/
structure InCharacters (src : Bytes) (d : Diagnostic) : Prop where
  reported : Reported src d.code d.span d.message
  notes : ∀ n ∈ d.notes, n.span.Aligned src ∧ Encoded n.message

section
variable {src : Bytes} (whole : Encoded src) (short : src.length < UInt32.size)
include whole short

theorem warning_inCharacters {file : FileId} {d : Diagnostic} (h : d ∈ Diagnostic.ofTokens file (tokenize src)) :
    InCharacters src d := by
  obtain ⟨tok, member, rfl⟩ := List.mem_map.1 h
  obtain ⟨_, aligned⟩ := Token.tokenize_aligned whole short (List.mem_filter.1 member).1
  have reported := @Reported.of_aligned src .unrecognizedInput tok.span "unrecognized input" (by decide) aligned
    (encoded_ofString _)
  exact ⟨reported, fun _ member => absurd member List.not_mem_nil⟩

theorem failure_inCharacters {failure : Failure} (failed : parseModule (tokenize src) = .error failure)
    (file : FileId) : InCharacters src (failure.diagnostic file) := by
  have errors := parseModule_errors_aligned whole short failed
  have other : failure.error.code ≠ .invalidEscape := by
    intro same
    have family := (parseModule_failure failed).code
    rw [same] at family
    exact absurd family (by decide)
  obtain ⟨aligned, message⟩ := errors failure.error (.inl rfl)
  have reported := Reported.of_aligned other aligned message
  have own : failure.error.unwrapped = failure.error := Error.unwrapped_of_own (parseModule_failure failed).reason
  rw [Failure.diagnostic, own]
  cases cause : failure.cause with
  | none => exact ⟨reported, fun _ member => absurd member List.not_mem_nil⟩
  | some c => exact ⟨reported, List.forall_mem_singleton.2 (errors c (.inr cause))⟩

theorem fault_inCharacters {statements : List Statement} (parsed : parseModule (tokenize src) = .ok statements)
    {s : Statement} (hs : s ∈ statements) {scope : Scope} {f : Fault}
    (out : (s.lower scope).lowered.outcome = .fault f) (opts : Lower.Options) :
    InCharacters src (f.reported opts) := by
  obtain ⟨w, within, word⟩ := exists_statement_word (parseModule_spells parsed) s hs
  have fault := (statement_faultAt word ((Token.tokenize_ordered short).sublist within) out).mono within.subset
  exact ⟨fault.reported whole short, fun _ member => absurd member List.not_mem_nil⟩

theorem report_inCharacters {opts : CompileOptions} {name : Bytes} {d : Diagnostic}
    (h : d ∈ reportsOf opts (fileOf name src)) : InCharacters src d := by
  rcases List.mem_append.1 h with warning | error
  · exact warning_inCharacters whole short warning
  · unfold errorsOf at error
    split at error
    · next failure failed =>
      rw [List.mem_singleton.1 error]
      exact failure_inCharacters whole short failed _
    · next statements parsed =>
      rw [items_walkOf parsed] at error
      obtain ⟨report, reported, mapped⟩ := List.mem_filterMap.1 error
      obtain ⟨fault, rfl, rfl⟩ := Option.map_eq_some_iff.1 mapped
      obtain ⟨s, hs, scope, out⟩ := exists_statement_of_report parsed reported
      exact fault_inCharacters whole short parsed hs out _

theorem module_inCharacters {opts : CompileOptions} {name : Bytes} {id : ModuleId} {b : Builder}
    (h : (fresh opts (fileOf name src)).module = some (id, b)) :
    ∃ m, b.module? id = some m ∧ ∀ s, TreeSpan b m s → s ≠ .empty → s.Aligned src := by
  cases parsed : parseModule (tokenize (fileOf name src).content) with
  | error failure =>
    rw [fresh_of_error parsed] at h
    cases h
  | ok statements =>
    obtain ⟨id', b', m, _, stored, _, same⟩ := @fresh_of_ok opts (fileOf name src) _ parsed
    rw [same] at h
    cases h
    refine ⟨m, stored.found, fun s span nonempty => ?_⟩
    have aligned : ∀ tok ∈ tokenize src, tok.span.Aligned src :=
      fun tok member => (Token.tokenize_aligned whole short member).2
    have spelled := parseModule_spells parsed
    have order := Token.tokenize_ordered short
    exact (treeSpan_aligned aligned whole stored.holds stored.span spelled order span).resolve_left nonempty

end

/-- In a source of characters the spans of tokens, of the tree and of notes lie between characters, and notes are
texts of characters. A diagnostic starts between characters; it ends between them and is a text of characters unless
it is about a backslash with a character of several bytes behind it, and then it is neither. -/
theorem compilation_keeps_characters (opts : CompileOptions) (name : Bytes) {src : Bytes}
    (valid : isValid src = true) (short : src.length < UInt32.size) :
    (∀ tok ∈ tokenize src, tok.span.Aligned src) ∧
    (∀ id b, (ofText opts name src).1.module = some (id, b) →
      ∃ m, b.module? id = some m ∧ ∀ s, TreeSpan b m s → s ≠ .empty → s.Aligned src) ∧
    ∀ d ∈ (ofText opts name src).1.bag.items,
      Boundary src d.span.start.toNat ∧
      (Boundary src d.span.stop.toNat ↔ ¬CutsCharacter src d.code d.span) ∧
      (isValid d.message = true ↔ ¬CutsCharacter src d.code d.span) ∧
      ∀ n ∈ d.notes, n.span.Aligned src ∧ isValid n.message = true := by
  have whole := isValid_iff.1 valid
  refine ⟨fun tok member => (Token.tokenize_aligned whole short member).2, fun id b found => ?_, fun d member => ?_⟩
  · exact module_inCharacters whole short found
  · rw [ofText_eq_fresh, fresh_bag, Bag.items_ofLimit] at member
    obtain ⟨⟨start, stop, message⟩, notes⟩ := report_inCharacters whole short (Bag.mem_of_mem_kept member)
    exact ⟨start, stop, isValid_iff.trans message, fun n hn => ⟨(notes n hn).1, isValid_iff.2 (notes n hn).2⟩⟩

/-- `é; "\é";`, where the name is not bound. -/
private def accented : Bytes := [0xC3, 0xA9, 0x3B, 0x20, 0x22, 0x5C, 0xC3, 0xA9, 0x22, 0x3B]

theorem accented_name_is_reported_whole :
    isValid accented = true ∧ accented.length < UInt32.size ∧
    (∀ tok ∈ tokenize accented, tok.span.Aligned accented) ∧
    (∃ id b m, (ofText {} [] accented).1.module = some (id, b) ∧ b.module? id = some m ∧
      m.span.Aligned accented) ∧
    ∃ d ∈ (ofText {} [] accented).1.bag.items, d.code = .undefinedName ∧ d.span.Aligned accented ∧
      isValid d.message = true := by
  have valid : isValid accented = true := by decide +kernel
  obtain ⟨tokens, trees, reports⟩ := compilation_keeps_characters {} [] valid (by decide)
  refine ⟨valid, by decide, tokens, ?_, ?_⟩
  · have parsed : ((ofText {} [] accented).1.module.bind fun p => p.2.module? p.1).map (·.span != .empty) =
        some true := by decide +kernel
    cases found : (ofText {} [] accented).1.module with
    | none =>
      rw [found] at parsed
      cases parsed
    | some p =>
      obtain ⟨m, read, aligned⟩ := trees p.1 p.2 found
      rw [found] at parsed
      have nonempty : m.span ≠ .empty := by simpa [read] using parsed
      exact ⟨p.1, p.2, m, rfl, read, aligned m.span (.part .module) nonempty⟩
  · have reported : ((ofText {} [] accented).1.bag.items.any (·.code == .undefinedName)) = true := by
      decide +kernel
    obtain ⟨d, member, code⟩ := List.any_eq_true.1 reported
    have code := eq_of_beq code
    obtain ⟨start, stop, message, _⟩ := reports d member
    have other : ¬CutsCharacter accented d.code d.span := by
      rintro ⟨escape, _⟩
      rw [code] at escape
      cases escape
    exact ⟨d, member, code, ⟨start, stop.2 other⟩, message.2 other⟩

/-- `"\é";`. -/
private def accentedEscape : Bytes := [0x22, 0x5C, 0xC3, 0xA9, 0x22, 0x3B]

/-- The report of the escape ends between the two bytes of the character, and its message is no text. -/
theorem escape_report_cuts_character :
    isValid accentedEscape = true ∧
    ∃ d ∈ (ofText {} [] accentedEscape).1.bag.items,
      ¬Boundary accentedEscape d.span.stop.toNat ∧ isValid d.message = false := by
  have valid : isValid accentedEscape = true := by decide +kernel
  have reported : ((ofText {} [] accentedEscape).1.bag.items.any fun d =>
      d.span.stop == 3 && !isValid d.message) = true := by decide +kernel
  obtain ⟨d, member, found⟩ := List.any_eq_true.1 reported
  obtain ⟨stop, message⟩ := Bool.and_eq_true_iff.1 found
  have slash : Boundary ([0x22, 0x5C] ++ 0xC3 :: [0xA9, 0x22, 0x3B]) 2 :=
    (@boundaries_ascii [0x22] _ 0x5C (isValid_iff.1 valid) (by decide)).2
  refine ⟨valid, d, member, fun boundary => ?_, by simpa using message⟩
  rw [eq_of_beq stop] at boundary
  exact absurd (slash.succ_iff.1 boundary) (by decide)

end Compilation

end LetStack
