import LetStack.Proofs.Grammar.Recursion

/-!
A failure that is no mismatch ends the evaluation: the rules around it fail with it one after another and invoke
nothing more (`fatal_failure_ends_evaluation`). A foreign failure that wraps a mismatch counts as one for `opt`,
`many0`, `alt` and `label` (`wrapped_mismatch_lets_pass`).
-/

namespace LetStack.Grammar

/-- A rule fails, and it neither mismatches nor wraps a mismatch. -/
def Step.Fatal (e : Error) (step : Step) : Prop := e.isMismatch = false ∧ ∃ rest, step = .answered (.failed e rest)

/-- No rule fails but with a mismatch. -/
def Quiet (log : List Step) : Prop := ∀ step ∈ log, ∀ e, ¬step.Fatal e

/-- A failure that is no mismatch is the answer, and nothing happens behind it but that it is passed on. -/
structure Cut (log : List Step) (answer : Answer) : Prop where
  ends : ∀ step ∈ log, ∀ e, step.Fatal e → ∃ rest, answer = .failed e rest
  stops : log.Pairwise fun x y => ∀ e, x.Fatal e → y.Fatal e

section
variable {log more : List Step} {answer : Answer} {i j k : Input} {e : Error}

theorem Quiet.cut (h : Quiet log) (answer : Answer) : Cut log answer where
  ends step mem e fatal := absurd fatal (h step mem e)
  stops := List.Pairwise.imp_of_mem (fun mem _ _ e fatal => absurd fatal (h _ mem e))
    (List.pairwise_of_forall fun _ _ => trivial)

theorem cut_nil (answer : Answer) : Cut [] answer :=
  Quiet.cut (fun _ mem => absurd mem List.not_mem_nil) answer

theorem Cut.quiet (h : Cut log (.matched j)) : Quiet log := by
  intro step mem e fatal
  obtain ⟨rest, other⟩ := h.ends step mem e fatal
  cases other

theorem Cut.quiet_of_missed (h : Cut log answer) (missed : answer.isMissed = true) : Quiet log := by
  intro step mem e fatal
  obtain ⟨rest, rfl⟩ := h.ends step mem e fatal
  exact absurd missed (Bool.eq_false_iff.1 fatal.1)

theorem Quiet.append (h : Quiet log) (h' : Cut more answer) : Cut (log ++ more) answer where
  ends step mem e fatal := by
    rcases List.mem_append.1 mem with before | here
    · exact absurd fatal (h step before e)
    · exact h'.ends step here e fatal
  stops := List.pairwise_append.2
    ⟨(h.cut answer).stops, h'.stops, fun step before _ _ e fatal => absurd fatal (h step before e)⟩

/-- The invocation of a rule ends with the failure too. -/
theorem Cut.invocation (h : Cut log answer) (i : Input) : Cut (invocation i log answer) answer := by
  have last : Cut [.answered answer] answer := by
    refine ⟨fun step mem e fatal => ?_, List.pairwise_singleton _ _⟩
    obtain ⟨rest, same⟩ := fatal.2
    cases (List.mem_singleton.1 mem).symm.trans same
    exact ⟨rest, rfl⟩
  have start : Quiet [.invoked i] := by
    rintro step mem e ⟨-, rest, failed⟩
    rw [List.mem_singleton.1 mem] at failed
    cases failed
  refine start.append ⟨fun step mem e fatal => ?_, List.pairwise_append.2 ⟨h.stops, last.stops, ?_⟩⟩
  · rcases List.mem_append.1 mem with before | here
    · exact h.ends step before e fatal
    · exact last.ends step here e fatal
  · -- a failure inside is the answer, and the last step says so
    intro step before final here e fatal
    obtain ⟨rest, rfl⟩ := h.ends step before e fatal
    exact ⟨fatal.1, rest, List.mem_singleton.1 here⟩

theorem Cut.back (h : Cut log answer) (k : Input) : Cut log (answer.back k) where
  ends step mem e fatal := by
    obtain ⟨rest, rfl⟩ := h.ends step mem e fatal
    exact ⟨k, rfl⟩
  stops := h.stops

end

section
variable {ι : Type} {Basic : (Input → Except Error Input) → Prop}

theorem Evaluates.cut {defs : ι → Recipe Basic ι} {t : Task Basic ι} {i : Input} {log : List Step} {answer : Answer}
    (h : Evaluates defs t i log answer) : Cut log answer := by
  induction h with
  | basic | tag | oneOf | noneLeft | allDone | manyEnd => exact cut_nil _
  | @map _ i _ _ _ ih => exact (ih.invocation i).back i
  | alt _ ih | seq _ ih => exact ih
  | @firstMissed _ _ _ i _ _ _ _ _ _ mismatch _ ih ihs => exact ((ih.invocation i).quiet_of_missed mismatch).append ihs
  | @firstTaken _ _ _ i _ _ _ _ ih => exact (ih.invocation i).back i
  | @allFailed _ _ i _ _ _ _ ih => exact (ih.invocation i).back i
  | @allNext _ _ i _ _ _ _ _ _ ih ihs => exact (ih.invocation i).quiet.append (ihs.back i)
  | @pairFailed _ _ i _ _ _ _ ih => exact (ih.invocation i).back i
  | @pairNext _ _ i j _ _ _ _ _ ih ihs => exact (ih.invocation i).quiet.append ((ihs.invocation j).back i)
  | @manyMissed _ i _ _ _ _ missed ih => exact ((ih.invocation i).quiet_of_missed missed).cut _
  | @manyFailed _ i _ _ _ _ _ _ ih => exact (ih.invocation i).back i
  | @manyIdle _ i _ _ _ _ _ ih => exact (ih.invocation i).quiet.cut _
  | @manyNext _ i _ _ _ _ _ _ _ _ ih ihs => exact (ih.invocation i).quiet.append (ihs.back i)
  | @optMissed _ i _ _ _ missed ih => exact ((ih.invocation i).quiet_of_missed missed).cut _
  | @optTaken _ i _ _ _ _ ih => exact (ih.invocation i).back i
  | @fullFailed _ i _ _ _ _ ih => exact (ih.invocation i).back i
  | @fullMatched _ i _ _ _ _ ih => exact ih.invocation i
  | @fullTrailing _ i _ _ _ _ ih => exact (ih.invocation i).quiet.cut _
  | @labelMatched _ _ _ i _ _ _ ih => exact ih.invocation i
  | @labelMissed _ _ _ i _ _ _ _ here ih => exact ((ih.invocation i).quiet_of_missed here.1).cut _
  | @labelFailed _ _ _ i _ _ _ _ _ ih => exact ih.invocation i
  | @unimplementedFailed _ _ i _ _ _ _ ih => exact (ih.invocation i).back i
  | @unimplementedMatched _ _ i _ _ _ ih => exact (ih.invocation i).quiet.cut _
  | @lazy _ i _ _ _ ih => exact ih.invocation i

/-- Whatever rules of any kind are put together: a failure of any rule invoked on the way, if it neither mismatches nor
wraps a mismatch, is what the whole rule fails with, and behind it nothing is invoked any more. The evaluation is the
only one, and there is one if no lazy rule comes back to itself before something is read. -/
theorem fatal_failure_ends_evaluation (defs : ι → Recipe Forward ι) (p : Recipe Forward ι) {i : Input}
    (inside : i.InRange) :
    (Guarded defs → ∃ log answer, Evaluates defs (.whole p) i log answer) ∧
    ∀ log answer, Evaluates defs (.whole p) i log answer →
      (∀ log' answer', Evaluates defs (.whole p) i log' answer' → log' = log ∧ answer' = answer) ∧
      ∀ before e rest after, log = before ++ .answered (.failed e rest) :: after → e.isMismatch = false →
        answer = .failed e i ∧ (∀ step ∈ after, ∃ rest', step = .answered (.failed e rest')) ∧
        ∀ (τ : ι → Type) (ρ : (k : ι) → Rule (τ k)) (α : Type) (r : Rule α), Solves ρ defs → Made ρ p r →
          r i = .error e := by
  refine ⟨fun guarded => exists_evaluates id guarded p inside, fun log answer evaluates => ?_⟩
  refine ⟨fun log' answer' other => evaluates.unique other, ?_⟩
  rintro before e rest after rfl fatal
  have cut := evaluates.cut
  have here : (Step.answered (.failed e rest)).Fatal e := ⟨fatal, rest, rfl⟩
  obtain ⟨-, behind, -⟩ := List.pairwise_append.1 cut.stops
  obtain ⟨k, rfl⟩ := cut.ends _ (List.mem_append_right before List.mem_cons_self) e here
  have back : k = i := evaluates.keeps id inside
  refine ⟨by rw [back], fun step mem => ((List.pairwise_cons.1 behind).1 step mem e here).2, ?_⟩
  intro τ ρ α r solves made
  exact Rule.endsAt_eq_error.1 (evaluates.agrees id solves inside (.whole made))

end

/-! ## Rules as data -/

theorem succeed_forward (v : Value) : Forward (Rule.succeed v).endsAt := by
  rintro i j inside ⟨⟩
  exact inside.reaches

theorem foreign_forward (message : Bytes) : Forward (Rule.foreign message : Rule Value).endsAt := by
  rintro i j - ⟨⟩

namespace Pattern

mutual

/-- How the rule of a pattern is put together. A deferred pattern is the name of its rule. -/
def recipe : Pattern → Recipe Forward Pattern
  | tag kind => .map (.tag kind)
  | oneOf kinds => .map (.oneOf kinds)
  | alt patterns => .alt (recipes patterns)
  | seq patterns => .map (.seq (recipes patterns))
  | pair first second => .map (.pair first.recipe second.recipe)
  | preceded first pattern => .preceded first.recipe pattern.recipe
  | terminated pattern last => .terminated pattern.recipe last.recipe
  | delimited opening pattern closing => .delimited opening.recipe pattern.recipe closing.recipe
  | separated sep element => .map (.separated sep.recipe element.recipe)
  | many0 pattern => .map (.many0 pattern.recipe)
  | opt pattern => .map (.opt pattern.recipe)
  | allConsuming pattern => .allConsuming pattern.recipe
  | deferred pattern => .lazy pattern
  | label pattern what code => .label pattern.recipe what code
  | unimplemented trigger feature => .unimplemented trigger.recipe feature
  | name => .map (.alt [.map (.tag .ident), .map (.tag .placeholder)])
  | foreign message => .basic _ (foreign_forward message)
  | empty => .basic _ (succeed_forward .empty)

def recipes : List Pattern → List (Recipe Forward Pattern)
  | [] => []
  | p :: ps => p.recipe :: recipes ps

end

theorem length_recipes (patterns : List Pattern) : (recipes patterns).length = (rules patterns).length := by
  induction patterns with
  | nil => rfl
  | cons p ps ih => simp only [recipes, rules, List.length_cons, ih]

mutual

theorem rule_made : (p : Pattern) → Made rule p.recipe p.rule
  | tag kind => .map _ (.tag kind)
  | oneOf kinds => .map _ (.oneOf kinds)
  | alt patterns => .alt (length_recipes patterns) (rules_made patterns)
  | seq patterns => .map _ (.seq (length_recipes patterns) (rules_made patterns))
  | pair first second => .map _ (.pair first.rule_made second.rule_made)
  | preceded first pattern => .map _ (.pair first.rule_made pattern.rule_made)
  | terminated pattern last => .map _ (.pair pattern.rule_made last.rule_made)
  | delimited opening pattern closing =>
    .map _ (.pair opening.rule_made (.map _ (.pair pattern.rule_made closing.rule_made)))
  | separated sep element =>
    .map _ (.map _ (.pair element.rule_made (.many0 (.map _ (.pair sep.rule_made element.rule_made)))))
  | many0 pattern => .map _ (.many0 pattern.rule_made)
  | opt pattern => .map _ (.opt pattern.rule_made)
  | allConsuming pattern => .allConsuming pattern.rule_made
  | deferred pattern => .lazy pattern
  | label pattern what code => .label what code pattern.rule_made
  | unimplemented trigger feature => .unimplemented feature trigger.rule_made
  | name => .map _ (.alt rfl (zip_made (.map _ (.tag _)) (zip_made (.map _ (.tag _)) nil_made)))
  | foreign message => .basic (foreign_forward message)
  | empty => .basic (succeed_forward .empty)

theorem rules_made : (patterns : List Pattern) → ∀ x ∈ (recipes patterns).zip (rules patterns), Made rule x.1 x.2
  | [] => nil_made
  | p :: ps => zip_made p.rule_made (rules_made ps)

end

theorem rule_solves : Solves rule recipe := fun p => ⟨p.rule, p.rule_made, fun _ => rfl⟩

end Pattern

/-- An identifier with a form that has no grammar behind it, or else an identifier alone. -/
private def matchBehind : Pattern :=
  .label (.opt (.alt [.preceded (.tag .ident) (.unimplemented (.tag .kwMatch) "match"), .tag .ident])) "name"
    .expectedExpression

private def nameThenMatch : Input := { tokens := #[{ kind := .ident }, { kind := .kwMatch }] }

/-- The second alternative would match, and the option would let a mismatch pass. -/
theorem match_behind_name_ends_evaluation :
    nameThenMatch.InRange ∧ ∃ before rest after answer,
      let e : Error := .here nameThenMatch.advance .unsupportedSyntax (.unimplemented "match")
      Evaluates Pattern.recipe (.whole matchBehind.recipe) nameThenMatch (before ++ .answered (.failed e rest) :: after)
          answer ∧
        after.length = 5 ∧ answer = .failed e nameThenMatch ∧ matchBehind.rule nameThenMatch = .error e ∧
        ∀ step ∈ after, ∃ rest', step = .answered (.failed e rest') := by
  have inside : nameThenMatch.InRange := Nat.zero_le _
  let behind := nameThenMatch.advance
  let e : Error := .here behind .unsupportedSyntax (.unimplemented "match")
  have first : Evaluates Pattern.recipe (.whole (Pattern.tag .ident).recipe) nameThenMatch _ (.matched behind) :=
    .map (.tag .ident nameThenMatch)
  have second : Evaluates Pattern.recipe (.whole (Pattern.tag .kwMatch).recipe) behind _ (.matched behind.advance) :=
    .map (.tag .kwMatch behind)
  have form : Evaluates Pattern.recipe (.whole (Pattern.unimplemented (.tag .kwMatch) "match").recipe) behind _
      (.failed e behind) := .unimplementedMatched second
  have both : Evaluates Pattern.recipe
      (.whole (Pattern.preceded (.tag .ident) (.unimplemented (.tag .kwMatch) "match")).recipe) nameThenMatch _
      (.failed e nameThenMatch) := .map (.pairNext first form)
  have choice : Evaluates Pattern.recipe
      (.whole (Pattern.alt [.preceded (.tag .ident) (.unimplemented (.tag .kwMatch) "match"), .tag .ident]).recipe)
      nameThenMatch _ (.failed e nameThenMatch) := .alt (.firstTaken both rfl)
  have whole : Evaluates Pattern.recipe (.whole matchBehind.recipe) nameThenMatch _ (.failed e nameThenMatch) :=
    .labelFailed (.map (.optTaken choice rfl)) fun mismatch => by cases mismatch.1
  let before : List Step := .replicate 7 (.invoked nameThenMatch) ++ .replicate 2 (.answered (.matched behind)) ++
    .replicate 3 (.invoked behind) ++ .replicate 2 (.answered (.matched behind.advance))
  let after : List Step := .replicate 5 (.answered (.failed e nameThenMatch))
  obtain ⟨fails, unwound, rules⟩ := ((fatal_failure_ends_evaluation Pattern.recipe matchBehind.recipe inside).2 _ _
    whole).2 before e behind after rfl rfl
  exact ⟨inside, before, behind, after, _, whole, rfl, fails,
    rules _ Pattern.rule _ _ Pattern.rule_solves matchBehind.rule_made, unwound⟩

/-- A rule from outside the grammar that reads no name and says in its own words why. -/
private def readName : Rule Token := fun i =>
  .error (.here i .unexpectedToken (.foreign "cannot read a name: expected identifier" (some ["identifier"])))

private def semicolonAlone : Input := { tokens := #[{ kind := .semicolon }] }

/-- The failure is foreign and is given up: the option and the repetition match, the second alternative is tried,
and the label puts its own mismatch in the place of the failure. -/
theorem wrapped_mismatch_lets_pass :
    (∃ e expected, readName semicolonAlone = .error e ∧
      e.reason = .foreign "cannot read a name: expected identifier" expected) ∧
    readName.opt semicolonAlone = .ok (none, semicolonAlone) ∧
    readName.many0 semicolonAlone = .ok ([], semicolonAlone) ∧
    Rule.alt [readName, Rule.tag .semicolon] semicolonAlone = .ok ({ kind := .semicolon }, semicolonAlone.advance) ∧
    readName.label "name" .expectedExpression semicolonAlone =
      .error (.mismatch semicolonAlone .expectedExpression ["name"]) := by
  refine ⟨⟨_, _, rfl, rfl⟩, rfl, ?_, rfl, rfl⟩
  rw [Rule.many0, Rule.many]
  rfl

end LetStack.Grammar
