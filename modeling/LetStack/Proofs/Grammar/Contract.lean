import LetStack.Proofs.Grammar.Recursion

/-!
The contract of a rule that is put together by the combinators, also by itself through lazy rules. Where no lazy rule
comes back to itself before a token is read, its evaluation ends. A match gives back a position over the same tokens,
not before the one of the call; a failure gives back that position and describes the token, or the end of input, at
one not before it (`recipe_keeps_contract`).
-/

namespace LetStack.Grammar

/-- The failure says what stands at its position: a token, or the end of input behind the last one. -/
structure Error.Describes (tokens : Array Token) (e : Error) : Prop where
  token : ∀ tok, tokens[e.pos]? = some tok → e.span = tok.span ∧ e.found = tok.kind.describe
  ending : tokens[e.pos]? = none → e.found = "end of input"
  behind : tokens[e.pos]? = none → ∀ last, tokens.back? = some last →
    e.span = { start := last.span.stop, stop := last.span.stop, line := last.span.line, column := last.span.column }
  nowhere : tokens = #[] → e.span = {}

theorem Error.describes_here (i : Input) (code : Code) (reason : Reason) :
    (Error.here i code reason).Describes i.tokens where
  token tok found := by
    have peeked : i.peek? = some tok := found
    simp only [Error.here, Input.span, Input.found, peeked, and_self]
  ending none := by
    have peeked : i.peek? = Option.none := none
    simp only [Error.here, Input.found, peeked]
  behind none last found := by
    have peeked : i.peek? = Option.none := none
    simp only [Error.here, Input.span, peeked, found]
  nowhere empty := by
    have peeked : i.peek? = none := by rw [Input.peek?, empty]; rfl
    have back : i.tokens.back? = none := by rw [empty]; rfl
    simp only [Error.here, Input.span, peeked, back]

namespace Rule

/-! ## Rules put together -/

/-- Rules put together from tokens and from rules of a class. -/
inductive Composed (basic : {α : Type} → Rule α → Prop) : {α : Type} → Rule α → Prop
  | basic {α : Type} {r : Rule α} : basic r → Composed basic r
  | tag (kind : Token.Kind) : Composed basic (Rule.tag kind)
  | oneOf (kinds : List Token.Kind) : Composed basic (Rule.oneOf kinds)
  | map {α β : Type} {r : Rule α} (f : α → β) : Composed basic r → Composed basic (Rule.map r f)
  | alt {α : Type} {rules : List (Rule α)} : (∀ r ∈ rules, Composed basic r) → Composed basic (Rule.alt rules)
  | seq {α : Type} {rules : List (Rule α)} : (∀ r ∈ rules, Composed basic r) → Composed basic (Rule.seq rules)
  | pair {α β : Type} {r : Rule α} {s : Rule β} :
      Composed basic r → Composed basic s → Composed basic (Rule.pair r s)
  | many0 {α : Type} {r : Rule α} : Composed basic r → Composed basic (Rule.many0 r)
  | opt {α : Type} {r : Rule α} : Composed basic r → Composed basic (Rule.opt r)
  | allConsuming {α : Type} {r : Rule α} : Composed basic r → Composed basic (Rule.allConsuming r)
  | label {α : Type} {r : Rule α} (what : Bytes) (code : Code) :
      Composed basic r → Composed basic (Rule.label r what code)
  | unimplemented {α β : Type} {r : Rule α} (feature : Bytes) :
      Composed basic r → Composed basic (Rule.unimplemented r feature : Rule β)
  /-- A rule that is made only when it is needed, and then for the position it is needed at. A rule that reads
  something before it comes back to itself is made so, one turn for each token that is left. -/
  | deferred {α : Type} {r : Input → Rule α} : (∀ i, Composed basic (r i)) → Composed basic fun i => r i i

section
variable {basic : {α : Type} → Rule α → Prop} {α β : Type} {r : Rule α}

theorem Composed.preceded {s : Rule β} (hr : Composed basic r) (hs : Composed basic s) :
    Composed basic (preceded r s) := (hr.pair hs).map _

theorem Composed.terminated {s : Rule β} (hr : Composed basic r) (hs : Composed basic s) :
    Composed basic (terminated r s) := (hr.pair hs).map _

theorem Built.composed (h : Built r) : Composed basic r := by
  induction h with
  | tag kind => exact .tag kind
  | oneOf kinds => exact .oneOf kinds
  | map f _ ih => exact ih.map f
  | pair _ _ ihr ihs => exact ihr.pair ihs
  | alt _ ih => exact .alt ih
  | many0 _ ih => exact ih.many0
  | opt _ ih => exact ih.opt
  | label _ _ _ ih => exact ih.label ..
  | unimplemented _ _ ih => exact ih.unimplemented _
  | deferred _ ih => exact .deferred ih

end

/-! ## Where they fail -/

variable {α : Type}

/-- The rule matches everywhere and reads nothing. -/
def Idle (r : Rule α) : Prop := ∀ i, ∃ a, r i = .ok (a, i)

variable {r : Rule α} {P : Reason → Prop}

theorem Idle.placed (h : r.Idle) : r.Placed P := by
  intro i inside
  obtain ⟨a, matched⟩ := h i
  rw [matched]
  exact inside.reaches

theorem seq_placed {rules : List (Rule α)} (h : ∀ r ∈ rules, r.Placed P) : (seq rules).Placed P := by
  intro i inside
  induction rules generalizing i with
  | nil => exact inside.reaches
  | cons r rules ih =>
    have placed := h r (.head _)
    unfold seq
    split
    · next failed => exact placed.error inside failed
    · next a j matched =>
      have first := placed.ok inside matched
      have rest := ih (fun s hs => h s (.tail _ hs)) first.inRange
      split
      · next failed =>
        rw [failed] at rest
        exact rest.of_reaches first
      · next matched =>
        rw [matched] at rest
        exact first.trans rest

theorem Placed.allConsuming (trailing : P .trailing) (h : r.Placed P) : (allConsuming r).Placed P := by
  intro i inside
  unfold Rule.allConsuming
  split
  · next failed => exact h.error inside failed
  · next a j matched =>
    have reaches := h.ok inside matched
    split
    · exact reaches
    · exact ⟨j, _, _, reaches, trailing, rfl⟩

/-- A reason that does not come from outside the grammar. -/
def OfGrammar : Reason → Prop
  | .mismatch _ | .unimplemented _ | .trailing => True
  | .foreign _ _ => False

theorem Composed.placed {basic : {α : Type} → Rule α → Prop}
    (known : ∀ {α : Type} {r : Rule α}, basic r → r.Placed OfGrammar) (h : Composed basic r) : r.Placed OfGrammar := by
  have mismatch : ∀ expected, OfGrammar (.mismatch expected) := fun _ => trivial
  induction h with
  | basic h => exact known h
  | tag kind => exact tag_placed mismatch kind
  | oneOf kinds => exact oneOf_placed mismatch kinds
  | map f _ ih => exact ih.map f
  | alt _ ih => exact alt_placed mismatch ih
  | seq _ ih => exact seq_placed ih
  | pair _ _ ihr ihs => exact ihr.pair ihs
  | many0 _ ih => exact ih.many0
  | opt _ ih => exact ih.opt
  | allConsuming _ ih => exact ih.allConsuming trivial
  | label what code _ ih => exact ih.label mismatch what code
  | unimplemented feature _ ih => exact ih.unimplemented trivial
  | deferred _ ih => exact fun i inside => ih i inside

end Rule

/-! ## Failures of an evaluation -/

/-- The run matches everywhere and reads nothing. -/
def Idles (run : Input → Except Error Input) : Prop := ∀ i, run i = .ok i

theorem Idles.forward {run : Input → Except Error Input} (h : Idles run) : Forward run := by
  intro i j inside matched
  rw [h i] at matched
  cases matched
  exact inside.reaches

theorem Answer.ofResult_eq_failed {i j : Input} {e : Error} {result : Except Error Input}
    (h : ofResult i result = .failed e j) : result = .error e := by
  cases result with
  | ok k => cases h
  | error e' =>
    cases h
    rfl

theorem Answer.back_eq_failed {i j : Input} {e : Error} {answer : Answer} (h : answer.back i = .failed e j) :
    ∃ k, answer = .failed e k := by
  cases answer with
  | matched k => cases h
  | failed e' k =>
    cases h
    exact ⟨k, rfl⟩

section
variable {ι : Type} {defs : ι → Recipe Idles ι} {i : Input}

/-- The failure that a choice has kept so far is ahead. -/
def Task.Kept (i : Input) : Task Idles ι → Prop
  | .first best _ => ∀ e, best = some e → e.Ahead (fun _ => True) i
  | .whole _ | .all _ => True

theorem Evaluates.ahead {t : Task Idles ι} {log : List Step} {answer : Answer} (h : Evaluates defs t i log answer)
    (inside : i.InRange) (kept : t.Kept i) {e : Error} {rest : Input} (failed : answer = .failed e rest) :
    e.Ahead (fun _ => True) i := by
  have mismatch : ∀ _ : List Bytes, True := fun _ => trivial
  induction h generalizing e rest with
  | basic run known i =>
    rw [known i] at failed
    cases failed
  | tag kind i =>
    exact (Rule.tag_placed mismatch kind).error inside (Rule.endsAt_eq_error.1 (Answer.ofResult_eq_failed failed))
  | oneOf kinds i =>
    exact (Rule.oneOf_placed mismatch kinds).error inside (Rule.endsAt_eq_error.1 (Answer.ofResult_eq_failed failed))
  | map _ ih | firstTaken _ _ ih | optTaken _ _ ih =>
    obtain ⟨k, failed⟩ := Answer.back_eq_failed failed
    exact ih inside trivial failed
  | alt _ ih => exact ih inside (fun e none => by cases none) failed
  | noneLeft best i =>
    cases failed
    cases best with
    | none => exact .of_here inside trivial
    | some e => exact kept e rfl
  | @firstMissed best _ _ _ _ _ _ _ _ _ _ _ ih ihs =>
    have ahead := (ih inside trivial rfl).unwrapped mismatch
    refine ihs inside ?_ failed
    rintro e' ⟨⟩
    cases best with
    | none => exact ahead
    | some b => exact (kept b rfl).furthest mismatch ahead
  | seq _ ih => exact ih inside trivial failed
  | allFailed _ ih | pairFailed _ ih | manyFailed _ _ _ ih | fullFailed _ ih | unimplementedFailed _ ih =>
    cases failed
    exact ih inside trivial rfl
  | allNext first _ _ ihs | pairNext first _ _ ihs =>
    obtain ⟨k, failed⟩ := Answer.back_eq_failed failed
    have reaches : Input.Reaches _ _ := first.keeps Idles.forward inside
    exact (ihs reaches.inRange trivial failed).of_reaches reaches
  | manyNext _ first _ _ _ ihs =>
    obtain ⟨k, failed⟩ := Answer.back_eq_failed failed
    have reaches : Input.Reaches _ _ := first.keeps Idles.forward inside
    exact (ihs reaches.inRange trivial failed).of_reaches reaches
  | fullTrailing first _ _ =>
    cases failed
    exact ⟨_, _, _, first.keeps Idles.forward inside, trivial, rfl⟩
  | labelMissed _ _ _ | unimplementedMatched _ _ =>
    cases failed
    exact .of_here inside trivial
  | labelFailed _ _ ih | lazy _ ih => exact ih inside trivial failed
  | allDone | manyEnd | manyMissed | manyIdle | optMissed | fullMatched | labelMatched => cases failed

end

/-- A name in any number of parentheses. -/
private def parenthesizedName : Unit → Recipe Idles Unit := fun _ =>
  .alt [.delimited (.tag .lParen) (.lazy ()) (.tag .rParen), .tag .ident]

private theorem parenthesizedName_guarded : Guarded parenthesizedName := by
  refine ⟨fun k => ⟨k, fun k' lead => ?_⟩⟩
  cases lead with
  | alt member lead =>
    rcases List.mem_cons.1 member with rfl | later
    · cases lead with
      | map lead =>
        -- behind the opening parenthesis something has been read
        cases lead with
        | pairFirst lead => cases lead
        | pairSecond idle _ => cases idle
    · cases List.mem_singleton.1 later
      cases lead

/-- `(x`, where the parenthesis is left open. -/
private def openParenthesis : Input := { tokens := #[{ kind := .lParen }, { kind := .ident }] }

private theorem openParenthesis_evaluates :
    let missing : Error := .mismatch (openParenthesis.moveTo 2) .unclosedParenthesis [Token.Kind.rParen.describe]
    ∃ log, Evaluates parenthesizedName (.whole (.lazy ())) openParenthesis log (.failed missing openParenthesis) := by
  intro missing
  let behind := openParenthesis.advance
  have opening : Evaluates parenthesizedName (.whole (.tag .lParen)) openParenthesis [] (.matched behind) :=
    .tag .lParen openParenthesis
  have noOpening : Evaluates parenthesizedName (.whole (.tag .lParen)) behind []
      (.failed (.mismatch behind .unexpectedToken [Token.Kind.lParen.describe]) behind) := .tag .lParen behind
  have name : Evaluates parenthesizedName (.whole (.tag .ident)) behind [] (.matched behind.advance) :=
    .tag .ident behind
  have inner : Evaluates parenthesizedName (.whole (.lazy ())) behind _ (.matched behind.advance) :=
    .lazy (.alt (.firstMissed (.map (.pairFailed noOpening)) rfl (.firstTaken name rfl)))
  have noClosing : Evaluates parenthesizedName (.whole (.tag .rParen)) behind.advance []
      (.failed missing behind.advance) := .tag .rParen behind.advance
  have noName : Evaluates parenthesizedName (.whole (.tag .ident)) openParenthesis []
      (.failed (.mismatch openParenthesis .unexpectedToken [Token.Kind.ident.describe]) openParenthesis) :=
    .tag .ident openParenthesis
  exact ⟨_, .lazy (.alt (.firstMissed (.map (.pairNext opening (.map (.pairNext inner noClosing)))) rfl
    (.firstMissed noName rfl (.noneLeft _ _))))⟩

/-- Names that begin with names. -/
private def namesBehindNames : Unit → Recipe Idles Unit := fun _ => .alt [.pair (.lazy ()) (.tag .ident), .tag .ident]

private theorem namesBehindNames_never_end (i : Input) (log : List Step) (answer : Answer) :
    ¬Evaluates namesBehindNames (.whole (.lazy ())) i log answer := by
  intro evaluates
  cases evaluates with
  | lazy built => exact left_recursion_never_ends (.alt _ (.pair _ (.lazy ()))) i _ _ built

end LetStack.Grammar
