import LetStack.Grammar.Pattern
import LetStack.Proofs.Grammar.Places

/-!
How rules are evaluated. A `Recipe` tells how a rule is put together by the combinators of `Rule`, without values.
Lazy rules stand in a recipe by name, and `defs` gives the recipe of each name, so that a rule may come back to
itself. `Evaluates` is the evaluation of a recipe at a position: which rules it invokes, what each gives back, and
where its caller goes on.

* A match moves on over the same tokens, and a failure gives back the position of the call (`Evaluates.keeps`).
* There is at most one evaluation of a recipe at a position (`Evaluates.unique`).
* A rule made by the combinators as its recipe says ends as the evaluation does (`Evaluates.agrees`).
-/

namespace LetStack.Grammar

/-- What an invoked rule gives back, without the value of a match: how it ended, and the position to go on from. -/
inductive Answer where
  | matched (rest : Input)
  | failed (error : Error) (rest : Input)

namespace Answer

/-- The answer of a rule that invokes no other. -/
def ofResult (i : Input) : Except Error Input → Answer
  | .ok j => matched j
  | .error e => failed e i

def result : Answer → Except Error Input
  | matched j => .ok j
  | failed e _ => .error e

/-- The answer of a rule around that was invoked at `i`: a failure goes back there. -/
def back (i : Input) : Answer → Answer
  | matched j => matched j
  | failed e _ => failed e i

/-- A mismatch, behind which something else may be tried. -/
def isMissed : Answer → Bool
  | matched _ => false
  | failed e _ => e.isMismatch

/-- A match moves on over the same tokens, a failure goes back to where the rule was invoked. -/
def Keeps (i : Input) : Answer → Prop
  | matched j => i.Reaches j
  | failed _ j => j = i

@[simp] theorem result_back (i : Input) (answer : Answer) : (answer.back i).result = answer.result := by
  cases answer <;> rfl

theorem result_ofResult (i : Input) (result : Except Error Input) : (ofResult i result).result = result := by
  cases result <;> rfl

theorem Keeps.back {i j : Input} {answer : Answer} (h : answer.Keeps j) (reaches : i.Reaches j) :
    (answer.back i).Keeps i := by
  cases answer with
  | matched k => exact reaches.trans h
  | failed e k => rfl

end Answer

/-- What happens during an evaluation. -/
inductive Step where
  | invoked (i : Input)
  | answered (answer : Answer)

/-- An invocation with all that happens until it is over. -/
def invocation (i : Input) (log : List Step) (answer : Answer) : List Step := .invoked i :: (log ++ [.answered answer])

/-- Where a rule ends, without its value. -/
def Rule.endsAt {α : Type} (r : Rule α) (i : Input) : Except Error Input := (r i).map Prod.snd

/-! ## Recipes -/

/-- How a rule is put together from tokens, from rules of a class, and from rules that are built when they are first
invoked, which go by their names. -/
inductive Recipe (Basic : (Input → Except Error Input) → Prop) (ι : Type) where
  | basic (run : Input → Except Error Input) (known : Basic run)
  | tag (kind : Token.Kind)
  | oneOf (kinds : List Token.Kind)
  | map (p : Recipe Basic ι)
  | alt (ps : List (Recipe Basic ι))
  | seq (ps : List (Recipe Basic ι))
  | pair (p q : Recipe Basic ι)
  | many0 (p : Recipe Basic ι)
  | opt (p : Recipe Basic ι)
  | allConsuming (p : Recipe Basic ι)
  | label (p : Recipe Basic ι) (what : Bytes) (code : Code)
  | unimplemented (p : Recipe Basic ι) (feature : Bytes)
  | lazy (k : ι)

namespace Recipe

variable {Basic : (Input → Except Error Input) → Prop} {ι : Type}

def preceded (p q : Recipe Basic ι) : Recipe Basic ι := map (pair p q)

def terminated (p q : Recipe Basic ι) : Recipe Basic ι := map (pair p q)

def delimited (opening p closing : Recipe Basic ι) : Recipe Basic ι := preceded opening (terminated p closing)

def separated (sep element : Recipe Basic ι) : Recipe Basic ι := map (pair element (many0 (preceded sep element)))

end Recipe

/-- What there is to be evaluated: a rule, the rest of a choice with the failure that got furthest so far, or the rest
of a sequence. -/
inductive Task (Basic : (Input → Except Error Input) → Prop) (ι : Type) where
  | whole (p : Recipe Basic ι)
  | first (best : Option Error) (ps : List (Recipe Basic ι))
  | all (ps : List (Recipe Basic ι))

/-! ## Evaluations -/

/-- Evaluating at a position, with what happens on the way and what the caller is given. One case for each way to go on
after what is invoked has answered. -/
inductive Evaluates {Basic : (Input → Except Error Input) → Prop} {ι : Type} (defs : ι → Recipe Basic ι) :
    Task Basic ι → Input → List Step → Answer → Prop
  | basic (run : Input → Except Error Input) (known : Basic run) (i : Input) :
      Evaluates defs (.whole (.basic run known)) i [] (.ofResult i (run i))
  | tag (kind : Token.Kind) (i : Input) : Evaluates defs (.whole (.tag kind)) i [] (.ofResult i ((Rule.tag kind).endsAt i))
  | oneOf (kinds : List Token.Kind) (i : Input) :
      Evaluates defs (.whole (.oneOf kinds)) i [] (.ofResult i ((Rule.oneOf kinds).endsAt i))
  | map {p : Recipe Basic ι} {i : Input} {log : List Step} {answer : Answer} :
      Evaluates defs (.whole p) i log answer →
      Evaluates defs (.whole (.map p)) i (invocation i log answer) (answer.back i)
  | alt {ps : List (Recipe Basic ι)} {i : Input} {log : List Step} {answer : Answer} :
      Evaluates defs (.first none ps) i log answer → Evaluates defs (.whole (.alt ps)) i log answer
  | noneLeft (best : Option Error) (i : Input) :
      Evaluates defs (.first best []) i [] (.failed (best.getD (.mismatch i .unexpectedToken [])) i)
  | firstMissed {best : Option Error} {p : Recipe Basic ι} {ps : List (Recipe Basic ι)} {i j : Input}
      {log more : List Step} {e : Error} {answer : Answer} :
      Evaluates defs (.whole p) i log (.failed e j) → e.isMismatch = true →
      Evaluates defs (.first (some ((best.map (·.furthest e.unwrapped)).getD e.unwrapped)) ps) i more answer →
      Evaluates defs (.first best (p :: ps)) i (invocation i log (.failed e j) ++ more) answer
  | firstTaken {best : Option Error} {p : Recipe Basic ι} {ps : List (Recipe Basic ι)} {i : Input} {log : List Step}
      {answer : Answer} : Evaluates defs (.whole p) i log answer → answer.isMissed = false →
      Evaluates defs (.first best (p :: ps)) i (invocation i log answer) (answer.back i)
  | seq {ps : List (Recipe Basic ι)} {i : Input} {log : List Step} {answer : Answer} :
      Evaluates defs (.all ps) i log answer → Evaluates defs (.whole (.seq ps)) i log answer
  | allDone (i : Input) : Evaluates defs (.all []) i [] (.matched i)
  | allFailed {p : Recipe Basic ι} {ps : List (Recipe Basic ι)} {i j : Input} {log : List Step} {e : Error} :
      Evaluates defs (.whole p) i log (.failed e j) →
      Evaluates defs (.all (p :: ps)) i (invocation i log (.failed e j)) (.failed e i)
  | allNext {p : Recipe Basic ι} {ps : List (Recipe Basic ι)} {i j : Input} {log more : List Step} {answer : Answer} :
      Evaluates defs (.whole p) i log (.matched j) → Evaluates defs (.all ps) j more answer →
      Evaluates defs (.all (p :: ps)) i (invocation i log (.matched j) ++ more) (answer.back i)
  | pairFailed {p q : Recipe Basic ι} {i j : Input} {log : List Step} {e : Error} :
      Evaluates defs (.whole p) i log (.failed e j) →
      Evaluates defs (.whole (.pair p q)) i (invocation i log (.failed e j)) (.failed e i)
  | pairNext {p q : Recipe Basic ι} {i j : Input} {log more : List Step} {answer : Answer} :
      Evaluates defs (.whole p) i log (.matched j) → Evaluates defs (.whole q) j more answer →
      Evaluates defs (.whole (.pair p q)) i (invocation i log (.matched j) ++ invocation j more answer) (answer.back i)
  | manyEnd {p : Recipe Basic ι} {i : Input} : i.atEnd = true →
      Evaluates defs (.whole (.many0 p)) i [] (.matched i)
  | manyMissed {p : Recipe Basic ι} {i : Input} {log : List Step} {answer : Answer} : i.atEnd = false →
      Evaluates defs (.whole p) i log answer → answer.isMissed = true →
      Evaluates defs (.whole (.many0 p)) i (invocation i log answer) (.matched i)
  | manyFailed {p : Recipe Basic ι} {i j : Input} {log : List Step} {e : Error} : i.atEnd = false →
      Evaluates defs (.whole p) i log (.failed e j) → e.isMismatch = false →
      Evaluates defs (.whole (.many0 p)) i (invocation i log (.failed e j)) (.failed e i)
  | manyIdle {p : Recipe Basic ι} {i j : Input} {log : List Step} : i.atEnd = false →
      Evaluates defs (.whole p) i log (.matched j) → j.pos = i.pos →
      Evaluates defs (.whole (.many0 p)) i (invocation i log (.matched j)) (.matched i)
  | manyNext {p : Recipe Basic ι} {i j : Input} {log more : List Step} {answer : Answer} : i.atEnd = false →
      Evaluates defs (.whole p) i log (.matched j) → j.pos ≠ i.pos →
      Evaluates defs (.whole (.many0 p)) j more answer →
      Evaluates defs (.whole (.many0 p)) i (invocation i log (.matched j) ++ more) (answer.back i)
  | optMissed {p : Recipe Basic ι} {i : Input} {log : List Step} {answer : Answer} :
      Evaluates defs (.whole p) i log answer → answer.isMissed = true →
      Evaluates defs (.whole (.opt p)) i (invocation i log answer) (.matched i)
  | optTaken {p : Recipe Basic ι} {i : Input} {log : List Step} {answer : Answer} :
      Evaluates defs (.whole p) i log answer → answer.isMissed = false →
      Evaluates defs (.whole (.opt p)) i (invocation i log answer) (answer.back i)
  | fullFailed {p : Recipe Basic ι} {i j : Input} {log : List Step} {e : Error} :
      Evaluates defs (.whole p) i log (.failed e j) →
      Evaluates defs (.whole (.allConsuming p)) i (invocation i log (.failed e j)) (.failed e i)
  | fullMatched {p : Recipe Basic ι} {i j : Input} {log : List Step} :
      Evaluates defs (.whole p) i log (.matched j) → j.atEnd = true →
      Evaluates defs (.whole (.allConsuming p)) i (invocation i log (.matched j)) (.matched j)
  | fullTrailing {p : Recipe Basic ι} {i j : Input} {log : List Step} :
      Evaluates defs (.whole p) i log (.matched j) → j.atEnd = false →
      Evaluates defs (.whole (.allConsuming p)) i (invocation i log (.matched j))
        (.failed (.here j .trailingInput .trailing) i)
  | labelMatched {p : Recipe Basic ι} {what : Bytes} {code : Code} {i j : Input} {log : List Step} :
      Evaluates defs (.whole p) i log (.matched j) →
      Evaluates defs (.whole (.label p what code)) i (invocation i log (.matched j)) (.matched j)
  | labelMissed {p : Recipe Basic ι} {what : Bytes} {code : Code} {i j : Input} {log : List Step} {e : Error} :
      Evaluates defs (.whole p) i log (.failed e j) → e.isMismatch = true ∧ e.pos = i.pos →
      Evaluates defs (.whole (.label p what code)) i (invocation i log (.failed e j))
        (.failed (.mismatch i code [what]) i)
  /-- Any other failure is given back as it is, with the position it came with. -/
  | labelFailed {p : Recipe Basic ι} {what : Bytes} {code : Code} {i j : Input} {log : List Step} {e : Error} :
      Evaluates defs (.whole p) i log (.failed e j) → ¬(e.isMismatch = true ∧ e.pos = i.pos) →
      Evaluates defs (.whole (.label p what code)) i (invocation i log (.failed e j)) (.failed e j)
  | unimplementedFailed {p : Recipe Basic ι} {feature : Bytes} {i j : Input} {log : List Step} {e : Error} :
      Evaluates defs (.whole p) i log (.failed e j) →
      Evaluates defs (.whole (.unimplemented p feature)) i (invocation i log (.failed e j)) (.failed e i)
  | unimplementedMatched {p : Recipe Basic ι} {feature : Bytes} {i j : Input} {log : List Step} :
      Evaluates defs (.whole p) i log (.matched j) →
      Evaluates defs (.whole (.unimplemented p feature)) i (invocation i log (.matched j))
        (.failed (.here i .unsupportedSyntax (.unimplemented feature)) i)
  | lazy {k : ι} {i : Input} {log : List Step} {answer : Answer} : Evaluates defs (.whole (defs k)) i log answer →
      Evaluates defs (.whole (.lazy k)) i (invocation i log answer) answer

/-- A match moves on over the same tokens. -/
def Forward (run : Input → Except Error Input) : Prop := ∀ ⦃i j⦄, i.InRange → run i = .ok j → i.Reaches j

theorem Rule.Placed.forward {α : Type} {P : Reason → Prop} {r : Rule α} (h : r.Placed P) : Forward r.endsAt := by
  intro i j inside ended
  cases found : r i with
  | error e => simp [Rule.endsAt, found, Except.map] at ended
  | ok v =>
    simp only [Rule.endsAt, found, Except.map, Except.ok.injEq] at ended
    exact ended ▸ h.ok inside found

theorem tag_forward (kind : Token.Kind) : Forward (Rule.tag kind).endsAt :=
  (Rule.tag_placed (P := fun _ => True) (fun _ => trivial) kind).forward

theorem oneOf_forward (kinds : List Token.Kind) : Forward (Rule.oneOf kinds).endsAt :=
  (Rule.oneOf_placed (P := fun _ => True) (fun _ => trivial) kinds).forward

theorem keeps_ofResult {run : Input → Except Error Input} {i : Input} (forward : Forward run) (inside : i.InRange) :
    (Answer.ofResult i (run i)).Keeps i := by
  cases found : run i with
  | ok j => exact forward inside found
  | error e => rfl

theorem left_lt_of_reaches {i j : Input} (h : i.Reaches j) (moved : j.pos ≠ i.pos) : j.left < i.left := by
  have forward := h.forward
  have inside := h.inside
  rw [Input.left, Input.left, h.tokens]
  omega

theorem not_left_lt_of_reaches {i j : Input} (h : i.Reaches j) (stays : j.pos = i.pos) : ¬j.left < i.left := by
  rw [Input.left, Input.left, h.tokens, stays]
  exact Nat.lt_irrefl _

section
variable {Basic : (Input → Except Error Input) → Prop} {ι : Type} {defs : ι → Recipe Basic ι}
  (forward : ∀ {run : Input → Except Error Input}, Basic run → Forward run)
include forward

theorem Evaluates.keeps {t : Task Basic ι} {i : Input} {log : List Step} {answer : Answer}
    (h : Evaluates defs t i log answer) (inside : i.InRange) : answer.Keeps i := by
  induction h with
  | basic run known i => exact keeps_ofResult (forward known) inside
  | tag kind i => exact keeps_ofResult (tag_forward kind) inside
  | oneOf kinds i => exact keeps_ofResult (oneOf_forward kinds) inside
  | map _ ih => exact (ih inside).back inside.reaches
  | alt _ ih | seq _ ih | lazy _ ih => exact ih inside
  | noneLeft | allFailed | pairFailed | manyFailed | fullFailed | fullTrailing | labelMissed | unimplementedFailed
  | unimplementedMatched => rfl
  | firstMissed _ _ _ _ ih => exact ih inside
  | firstTaken _ _ ih | optTaken _ _ ih => exact (ih inside).back inside.reaches
  | allDone | manyEnd | manyMissed | manyIdle | optMissed => exact inside.reaches
  | allNext _ _ ih ihs | pairNext _ _ ih ihs => exact (ihs (ih inside).inRange).back (ih inside)
  | manyNext _ _ _ _ ih ihs => exact (ihs (ih inside).inRange).back (ih inside)
  | fullMatched _ _ ih | labelMatched _ ih => exact ih inside
  | labelFailed _ _ ih => exact ih inside

end

section
variable {Basic : (Input → Except Error Input) → Prop} {ι : Type} {defs : ι → Recipe Basic ι}

/-- What is invoked answers in one way only, and with that it is settled which case comes next. -/
theorem Evaluates.unique {t : Task Basic ι} {i : Input} {log log' : List Step} {answer answer' : Answer}
    (h : Evaluates defs t i log answer) (h' : Evaluates defs t i log' answer') : log' = log ∧ answer' = answer := by
  induction h generalizing log' answer' with
  | basic | tag | oneOf | noneLeft | allDone =>
    cases h'
    exact ⟨rfl, rfl⟩
  | map _ ih | alt _ ih | seq _ ih | lazy _ ih =>
    cases h'
    grind
  | firstMissed _ mismatch _ ih ihs => cases h' <;> grind [Answer.isMissed]
  | firstTaken _ taken ih => cases h' <;> grind [Answer.isMissed]
  | allFailed _ ih | pairFailed _ ih => cases h' <;> grind
  | allNext _ _ ih ihs | pairNext _ _ ih ihs => cases h' <;> grind
  | manyEnd atEnd => cases h' <;> grind
  | manyMissed notEnd _ missed ih => cases h' <;> grind [Answer.isMissed]
  | manyFailed notEnd _ fatal ih => cases h' <;> grind [Answer.isMissed]
  | manyIdle notEnd _ stays ih => cases h' <;> grind [Answer.isMissed]
  | manyNext notEnd _ moves _ ih ihs => cases h' <;> grind [Answer.isMissed]
  | optMissed _ missed ih | optTaken _ missed ih => cases h' <;> grind
  | fullFailed _ ih => cases h' <;> grind
  | fullMatched _ atEnd ih | fullTrailing _ atEnd ih => cases h' <;> grind
  | labelMatched _ ih => cases h' <;> grind
  | labelMissed _ here ih | labelFailed _ here ih => cases h' <;> grind
  | unimplementedFailed _ ih | unimplementedMatched _ ih => cases h' <;> grind

end

/-! ## Rules made by the combinators -/

section
variable {α β : Type} {r : Rule α} {i j : Input} {e : Error}

theorem Rule.endsAt_eq_ok : r.endsAt i = .ok j ↔ ∃ a, r i = .ok (a, j) := by
  unfold endsAt
  rcases r i with e | ⟨a, k⟩ <;> simp [Except.map]

theorem Rule.endsAt_eq_error : r.endsAt i = .error e ↔ r i = .error e := by
  unfold endsAt
  rcases r i with e | ⟨a, k⟩ <;> simp [Except.map]

theorem Rule.endsAt_map (f : α → β) : (r.map f).endsAt i = r.endsAt i := by
  unfold endsAt map
  rcases r i with e | ⟨a, k⟩ <;> rfl

end

section
variable {Basic : (Input → Except Error Input) → Prop} {ι : Type} {τ : ι → Type}

/-- The rule is made by the combinators as the recipe says; `ρ k` is the rule with the name `k`. -/
inductive Made (ρ : (k : ι) → Rule (τ k)) : Recipe Basic ι → {α : Type} → Rule α → Prop
  | basic {α : Type} {r : Rule α} (known : Basic r.endsAt) : Made ρ (.basic r.endsAt known) r
  | tag (kind : Token.Kind) : Made ρ (.tag kind) (Rule.tag kind)
  | oneOf (kinds : List Token.Kind) : Made ρ (.oneOf kinds) (Rule.oneOf kinds)
  | map {α β : Type} {p : Recipe Basic ι} {r : Rule α} (f : α → β) : Made ρ p r → Made ρ (.map p) (r.map f)
  | alt {α : Type} {ps : List (Recipe Basic ι)} {rules : List (Rule α)} : ps.length = rules.length →
      (∀ x ∈ ps.zip rules, Made ρ x.1 x.2) → Made ρ (.alt ps) (Rule.alt rules)
  | seq {α : Type} {ps : List (Recipe Basic ι)} {rules : List (Rule α)} : ps.length = rules.length →
      (∀ x ∈ ps.zip rules, Made ρ x.1 x.2) → Made ρ (.seq ps) (Rule.seq rules)
  | pair {α β : Type} {p q : Recipe Basic ι} {r : Rule α} {s : Rule β} :
      Made ρ p r → Made ρ q s → Made ρ (.pair p q) (r.pair s)
  | many0 {α : Type} {p : Recipe Basic ι} {r : Rule α} : Made ρ p r → Made ρ (.many0 p) r.many0
  | opt {α : Type} {p : Recipe Basic ι} {r : Rule α} : Made ρ p r → Made ρ (.opt p) r.opt
  | allConsuming {α : Type} {p : Recipe Basic ι} {r : Rule α} : Made ρ p r → Made ρ (.allConsuming p) r.allConsuming
  | label {α : Type} {p : Recipe Basic ι} {r : Rule α} (what : Bytes) (code : Code) :
      Made ρ p r → Made ρ (.label p what code) (r.label what code)
  | unimplemented {α β : Type} {p : Recipe Basic ι} {r : Rule α} (feature : Bytes) :
      Made ρ p r → Made ρ (.unimplemented p feature) (r.unimplemented feature : Rule β)
  | lazy (k : ι) : Made ρ (.lazy k) (ρ k)

/-- The rule does what there is to be evaluated. -/
inductive Task.MadeOf (ρ : (k : ι) → Rule (τ k)) : Task Basic ι → {α : Type} → Rule α → Prop
  | whole {α : Type} {p : Recipe Basic ι} {r : Rule α} : Made ρ p r → MadeOf ρ (.whole p) r
  | first {α : Type} (best : Option Error) {ps : List (Recipe Basic ι)} {rules : List (Rule α)} :
      ps.length = rules.length → (∀ x ∈ ps.zip rules, Made ρ x.1 x.2) →
      MadeOf ρ (.first best ps) (Rule.firstOf best rules)
  | all {α : Type} {ps : List (Recipe Basic ι)} {rules : List (Rule α)} : ps.length = rules.length →
      (∀ x ∈ ps.zip rules, Made ρ x.1 x.2) → MadeOf ρ (.all ps) (Rule.seq rules)

/-- The rules with names are made as their definitions say. -/
def Solves (ρ : (k : ι) → Rule (τ k)) (defs : ι → Recipe Basic ι) : Prop :=
  ∀ k, ∃ body : Rule (τ k), Made ρ (defs k) body ∧ ∀ i, ρ k i = body i

variable {ρ : (k : ι) → Rule (τ k)} {defs : ι → Recipe Basic ι}

theorem made_cons {α : Type} {p : Recipe Basic ι} {ps : List (Recipe Basic ι)} {rules : List (Rule α)}
    (length : (p :: ps).length = rules.length) (made : ∀ x ∈ (p :: ps).zip rules, Made ρ x.1 x.2) :
    ∃ r rest, rules = r :: rest ∧ Made ρ p r ∧ ps.length = rest.length ∧ ∀ x ∈ ps.zip rest, Made ρ x.1 x.2 := by
  cases rules with
  | nil => cases length
  | cons r rest =>
    obtain ⟨first, others⟩ := List.forall_mem_cons.1 made
    exact ⟨r, rest, rfl, first, Nat.succ.inj length, others⟩

theorem zip_made {α : Type} {p : Recipe Basic ι} {r : Rule α} {ps : List (Recipe Basic ι)} {rules : List (Rule α)}
    (h : Made ρ p r) (hs : ∀ x ∈ ps.zip rules, Made ρ x.1 x.2) : ∀ x ∈ (p :: ps).zip (r :: rules), Made ρ x.1 x.2 :=
  List.forall_mem_cons.2 ⟨h, hs⟩

theorem nil_made {α : Type} : ∀ x ∈ ([] : List (Recipe Basic ι)).zip ([] : List (Rule α)), Made ρ x.1 x.2 :=
  fun _ none => absurd none List.not_mem_nil

section
variable (forward : ∀ {run : Input → Except Error Input}, Basic run → Forward run) (solves : Solves ρ defs)
include forward solves

/-- A rule ends as the evaluation of its recipe does. -/
theorem Evaluates.agrees {t : Task Basic ι} {i : Input} {log : List Step} {answer : Answer}
    (h : Evaluates defs t i log answer) (inside : i.InRange) {α : Type} {r : Rule α} (made : t.MadeOf ρ r) :
    r.endsAt i = answer.result := by
  induction h generalizing α with
  | basic run known i | tag kind i | oneOf kinds i =>
    obtain ⟨⟨⟩⟩ := made
    exact (Answer.result_ofResult ..).symm
  | map _ ih =>
    obtain ⟨made⟩ := made
    cases made with
    | map f made => rw [Rule.endsAt_map, ih inside (.whole made), Answer.result_back]
  | alt _ ih =>
    obtain ⟨made⟩ := made
    cases made with
    | alt length made => exact ih inside (.first none length made)
  | noneLeft best i =>
    cases made with
    | first _ length made =>
      cases List.eq_nil_of_length_eq_zero length.symm
      rfl
  | firstMissed _ mismatch _ ih ihs =>
    cases made with
    | first _ length made =>
      obtain ⟨r, rest, rfl, first, length, others⟩ := made_cons length made
      have failed := Rule.endsAt_eq_error.1 (ih inside (.whole first))
      have next := ihs inside (.first _ length others)
      simpa only [Rule.endsAt, Rule.firstOf, failed, mismatch, if_true] using next
  | @firstTaken _ _ _ _ _ answer _ taken ih =>
    cases made with
    | first _ length made =>
      obtain ⟨r, rest, rfl, first, -, -⟩ := made_cons length made
      have yields := ih inside (.whole first)
      cases answer with
      | matched j =>
        obtain ⟨a, matched⟩ := Rule.endsAt_eq_ok.1 yields
        simp only [Rule.endsAt, Rule.firstOf, matched]
        rfl
      | failed e j =>
        have failed := Rule.endsAt_eq_error.1 yields
        have fatal : e.isMismatch = false := taken
        simp only [Rule.endsAt, Rule.firstOf, failed, fatal, Bool.false_eq_true, if_false]
        rfl
  | seq _ ih =>
    obtain ⟨made⟩ := made
    cases made with
    | seq length made => exact ih inside (.all length made)
  | allDone i =>
    cases made with
    | all length made =>
      cases List.eq_nil_of_length_eq_zero length.symm
      rfl
  | allFailed _ ih =>
    cases made with
    | all length made =>
      obtain ⟨r, rest, rfl, first, -, -⟩ := made_cons length made
      have failed := Rule.endsAt_eq_error.1 (ih inside (.whole first))
      simp only [Rule.endsAt, Rule.seq, failed]
      rfl
  | @allNext _ _ _ _ _ _ answer first _ ih ihs =>
    cases made with
    | all length made =>
      obtain ⟨r, rest, rfl, made, length, others⟩ := made_cons length made
      obtain ⟨a, matched⟩ := Rule.endsAt_eq_ok.1 (ih inside (.whole made))
      have next := ihs (first.keeps forward inside).inRange (.all length others)
      rw [Answer.result_back, ← next]
      simp only [Rule.endsAt, Rule.seq, matched]
      split <;> (next same => simp only [same, Except.map])
  | pairFailed _ ih =>
    obtain ⟨made⟩ := made
    cases made with
    | pair made _ =>
      have failed := Rule.endsAt_eq_error.1 (ih inside (.whole made))
      simp only [Rule.endsAt, Rule.pair, failed]
      rfl
  | pairNext first _ ih ihs =>
    obtain ⟨made⟩ := made
    cases made with
    | pair made made' =>
      obtain ⟨a, matched⟩ := Rule.endsAt_eq_ok.1 (ih inside (.whole made))
      have next := ihs (first.keeps forward inside).inRange (.whole made')
      rw [Answer.result_back, ← next]
      simp only [Rule.endsAt, Rule.pair, matched]
      split <;> (next same => simp only [same, Except.map])
  | manyEnd atEnd =>
    obtain ⟨made⟩ := made
    cases made with
    | many0 made =>
      rw [Rule.endsAt, Rule.many0, Rule.many, if_pos atEnd]
      rfl
  | @manyMissed _ _ _ answer notEnd _ missed ih =>
    obtain ⟨made⟩ := made
    cases made with
    | many0 made =>
      have yields := ih inside (.whole made)
      cases answer with
      | matched j => cases missed
      | failed e j =>
        have failed := Rule.endsAt_eq_error.1 yields
        have mismatch : e.isMismatch = true := missed
        rw [Rule.endsAt, Rule.many0, Rule.many]
        simp only [notEnd, failed, mismatch, Bool.false_eq_true, if_false, if_true]
        rfl
  | manyFailed notEnd _ fatal ih =>
    obtain ⟨made⟩ := made
    cases made with
    | many0 made =>
      have failed := Rule.endsAt_eq_error.1 (ih inside (.whole made))
      rw [Rule.endsAt, Rule.many0, Rule.many]
      simp only [notEnd, failed, fatal, Bool.false_eq_true, if_false]
      rfl
  | manyIdle notEnd first stays ih =>
    obtain ⟨made⟩ := made
    cases made with
    | many0 made =>
      obtain ⟨a, matched⟩ := Rule.endsAt_eq_ok.1 (ih inside (.whole made))
      have same := not_left_lt_of_reaches (first.keeps forward inside) stays
      rw [Rule.endsAt, Rule.many0, Rule.many]
      simp only [notEnd, matched, same, Bool.false_eq_true, if_false]
      rfl
  | manyNext notEnd first moves _ ih ihs =>
    obtain ⟨made⟩ := made
    cases made with
    | many0 made =>
      obtain ⟨a, matched⟩ := Rule.endsAt_eq_ok.1 (ih inside (.whole made))
      have reaches := first.keeps forward inside
      have less := left_lt_of_reaches reaches moves
      have next : (Rule.many _ _).map Prod.snd = _ := ihs reaches.inRange (.whole (.many0 made))
      rw [Answer.result_back, ← next, Rule.endsAt, Rule.many0, Rule.many]
      simp only [notEnd, matched, less, Bool.false_eq_true, if_false, if_true]
      split <;> (next same => simp only [same, Except.map])
  | @optMissed _ _ _ answer _ missed ih =>
    obtain ⟨made⟩ := made
    cases made with
    | opt made =>
      have yields := ih inside (.whole made)
      cases answer with
      | matched j => cases missed
      | failed e j =>
        have failed := Rule.endsAt_eq_error.1 yields
        have mismatch : e.isMismatch = true := missed
        simp only [Rule.endsAt, Rule.opt, failed, mismatch, if_true]
        rfl
  | @optTaken _ _ _ answer _ taken ih =>
    obtain ⟨made⟩ := made
    cases made with
    | opt made =>
      have yields := ih inside (.whole made)
      cases answer with
      | matched j =>
        obtain ⟨a, matched⟩ := Rule.endsAt_eq_ok.1 yields
        simp only [Rule.endsAt, Rule.opt, matched]
        rfl
      | failed e j =>
        have failed := Rule.endsAt_eq_error.1 yields
        have fatal : e.isMismatch = false := taken
        simp only [Rule.endsAt, Rule.opt, failed, fatal, Bool.false_eq_true, if_false]
        rfl
  | fullFailed _ ih =>
    obtain ⟨made⟩ := made
    cases made with
    | allConsuming made =>
      have failed := Rule.endsAt_eq_error.1 (ih inside (.whole made))
      simp only [Rule.endsAt, Rule.allConsuming, failed]
      rfl
  | fullMatched _ atEnd ih =>
    obtain ⟨made⟩ := made
    cases made with
    | allConsuming made =>
      obtain ⟨a, matched⟩ := Rule.endsAt_eq_ok.1 (ih inside (.whole made))
      simp only [Rule.endsAt, Rule.allConsuming, matched, atEnd, if_true]
      rfl
  | fullTrailing _ notEnd ih =>
    obtain ⟨made⟩ := made
    cases made with
    | allConsuming made =>
      obtain ⟨a, matched⟩ := Rule.endsAt_eq_ok.1 (ih inside (.whole made))
      simp only [Rule.endsAt, Rule.allConsuming, matched, notEnd, Bool.false_eq_true, if_false]
      rfl
  | labelMatched _ ih =>
    obtain ⟨made⟩ := made
    cases made with
    | label what code made =>
      obtain ⟨a, matched⟩ := Rule.endsAt_eq_ok.1 (ih inside (.whole made))
      simp only [Rule.endsAt, Rule.label, matched]
      rfl
  | labelMissed _ here ih =>
    obtain ⟨made⟩ := made
    cases made with
    | label what code made =>
      have failed := Rule.endsAt_eq_error.1 (ih inside (.whole made))
      simp only [Rule.endsAt, Rule.label, failed, if_pos here]
      rfl
  | labelFailed _ other ih =>
    obtain ⟨made⟩ := made
    cases made with
    | label what code made =>
      have failed := Rule.endsAt_eq_error.1 (ih inside (.whole made))
      simp only [Rule.endsAt, Rule.label, failed, if_neg other]
      rfl
  | unimplementedFailed _ ih =>
    obtain ⟨made⟩ := made
    cases made with
    | unimplemented feature made =>
      have failed := Rule.endsAt_eq_error.1 (ih inside (.whole made))
      simp only [Rule.endsAt, Rule.unimplemented, failed]
      rfl
  | unimplementedMatched _ ih =>
    obtain ⟨made⟩ := made
    cases made with
    | unimplemented feature made =>
      obtain ⟨a, matched⟩ := Rule.endsAt_eq_ok.1 (ih inside (.whole made))
      simp only [Rule.endsAt, Rule.unimplemented, matched]
      rfl
  | @lazy k i _ _ _ ih =>
    obtain ⟨made⟩ := made
    cases made with
    | lazy k =>
      obtain ⟨body, made, same⟩ := solves k
      rw [← ih inside (.whole made), Rule.endsAt, Rule.endsAt, same]

end

end

end LetStack.Grammar
