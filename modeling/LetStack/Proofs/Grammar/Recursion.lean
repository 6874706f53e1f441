import LetStack.Proofs.Grammar.Evaluation

/-!
When evaluations end. `Leads` says which lazy rules a rule may invoke before anything is read, given the rules that
may match without reading (`MayIdle`). If no lazy rule leads back to itself (`Guarded`), every rule has an evaluation
at every position (`exists_evaluates`). A rule that begins by invoking itself has none (`left_recursion_never_ends`).
-/

namespace LetStack.Grammar

/-! ## Left recursion -/

section
variable {Basic : (Input → Except Error Input) → Prop} {ι : Type} (defs : ι → Recipe Basic ι)

/-- Rules that may match without reading anything. -/
inductive MayIdle : Recipe Basic ι → Prop
  | basic (run : Input → Except Error Input) (known : Basic run) : MayIdle (.basic run known)
  | map {p : Recipe Basic ι} : MayIdle p → MayIdle (.map p)
  | alt {ps : List (Recipe Basic ι)} {p : Recipe Basic ι} : p ∈ ps → MayIdle p → MayIdle (.alt ps)
  | seq {ps : List (Recipe Basic ι)} : (∀ p ∈ ps, MayIdle p) → MayIdle (.seq ps)
  | pair {p q : Recipe Basic ι} : MayIdle p → MayIdle q → MayIdle (.pair p q)
  | many0 (p : Recipe Basic ι) : MayIdle (.many0 p)
  | opt (p : Recipe Basic ι) : MayIdle (.opt p)
  | allConsuming {p : Recipe Basic ι} : MayIdle p → MayIdle (.allConsuming p)
  | label {p : Recipe Basic ι} {what : Bytes} {code : Code} : MayIdle p → MayIdle (.label p what code)
  | lazy {k : ι} : MayIdle (defs k) → MayIdle (.lazy k)

/-- The rule may invoke the one with the name `k` before anything is read. -/
inductive Leads : Recipe Basic ι → ι → Prop
  | lazy (k : ι) : Leads (.lazy k) k
  | map {p : Recipe Basic ι} {k : ι} : Leads p k → Leads (.map p) k
  | alt {ps : List (Recipe Basic ι)} {p : Recipe Basic ι} {k : ι} : p ∈ ps → Leads p k → Leads (.alt ps) k
  | seq {pre post : List (Recipe Basic ι)} {p : Recipe Basic ι} {k : ι} : (∀ q ∈ pre, MayIdle defs q) → Leads p k →
      Leads (.seq (pre ++ p :: post)) k
  | pairFirst {p q : Recipe Basic ι} {k : ι} : Leads p k → Leads (.pair p q) k
  | pairSecond {p q : Recipe Basic ι} {k : ι} : MayIdle defs p → Leads q k → Leads (.pair p q) k
  | many0 {p : Recipe Basic ι} {k : ι} : Leads p k → Leads (.many0 p) k
  | opt {p : Recipe Basic ι} {k : ι} : Leads p k → Leads (.opt p) k
  | allConsuming {p : Recipe Basic ι} {k : ι} : Leads p k → Leads (.allConsuming p) k
  | label {p : Recipe Basic ι} {what : Bytes} {code : Code} {k : ι} : Leads p k → Leads (.label p what code) k
  | unimplemented {p : Recipe Basic ι} {feature : Bytes} {k : ι} : Leads p k → Leads (.unimplemented p feature) k

/-- No rule comes back to itself before anything is read. -/
def Guarded : Prop := WellFounded fun k' k => Leads defs (defs k) k'

def Task.MayIdle : Task Basic ι → Prop
  | .whole p => Grammar.MayIdle defs p
  | .first _ ps => ∃ p ∈ ps, Grammar.MayIdle defs p
  | .all ps => ∀ p ∈ ps, Grammar.MayIdle defs p

end

theorem Answer.back_eq_matched {i j : Input} {answer : Answer} (h : answer.back i = .matched j) :
    answer = .matched j := by
  cases answer with
  | matched k => exact h
  | failed e k => cases h

theorem Answer.ofResult_eq_matched {i j : Input} {result : Except Error Input} (h : ofResult i result = .matched j) :
    result = .ok j := by
  cases result with
  | ok k =>
    cases h
    rfl
  | error e => cases h

theorem tag_moves {kind : Token.Kind} {i j : Input} (h : (Rule.tag kind).endsAt i = .ok j) : j.pos = i.pos + 1 := by
  obtain ⟨tok, matched⟩ := Rule.endsAt_eq_ok.1 h
  unfold Rule.tag at matched
  split at matched
  · next tok peeked =>
    obtain ⟨inside, _⟩ := Array.getElem?_eq_some_iff.1 peeked
    split at matched
    · cases matched
      exact if_pos inside
    · cases matched
  · cases matched

theorem oneOf_moves {kinds : List Token.Kind} {i j : Input} (h : (Rule.oneOf kinds).endsAt i = .ok j) :
    j.pos = i.pos + 1 := by
  obtain ⟨tok, matched⟩ := Rule.endsAt_eq_ok.1 h
  unfold Rule.oneOf at matched
  split at matched
  · next tok peeked =>
    obtain ⟨inside, _⟩ := Array.getElem?_eq_some_iff.1 peeked
    split at matched
    · cases matched
      exact if_pos inside
    · cases matched
  · cases matched

theorem eq_of_reaches {i j : Input} (h : i.Reaches j) (stays : j.pos = i.pos) : j = i := by
  obtain ⟨tokens, pos⟩ := j
  obtain ⟨tokens', pos'⟩ := i
  cases h.tokens
  cases stays
  rfl

section
variable {Basic : (Input → Except Error Input) → Prop} {ι : Type} {defs : ι → Recipe Basic ι}
  (forward : ∀ {run : Input → Except Error Input}, Basic run → Forward run)
include forward

theorem Evaluates.mayIdle {t : Task Basic ι} {i j : Input} {log : List Step} {answer : Answer}
    (h : Evaluates defs t i log answer) (inside : i.InRange) (matched : answer = .matched j) (stays : j.pos = i.pos) :
    t.MayIdle defs := by
  induction h generalizing j with
  | basic run known i => exact .basic run known
  | tag kind i =>
    have moved := tag_moves (Answer.ofResult_eq_matched matched)
    omega
  | oneOf kinds i =>
    have moved := oneOf_moves (Answer.ofResult_eq_matched matched)
    omega
  | map _ ih => exact .map (ih inside (Answer.back_eq_matched matched) stays)
  | alt _ ih =>
    obtain ⟨p, hp, idles⟩ := ih inside matched stays
    exact .alt hp idles
  | firstMissed _ _ _ _ ihs =>
    obtain ⟨p, hp, idles⟩ := ihs inside matched stays
    exact ⟨p, .tail _ hp, idles⟩
  | firstTaken _ _ ih => exact ⟨_, .head _, ih inside (Answer.back_eq_matched matched) stays⟩
  | seq _ ih => exact .seq (ih inside matched stays)
  | allDone => exact fun p hp => absurd hp List.not_mem_nil
  | allNext first rest ih ihs =>
    cases Answer.back_eq_matched matched
    have reaches := first.keeps forward inside
    have further := rest.keeps forward reaches.inRange
    have between := reaches.forward
    have behind := further.forward
    refine List.forall_mem_cons.2 ⟨ih inside rfl (by omega), ihs reaches.inRange rfl (by omega)⟩
  | pairNext first rest ih ihs =>
    cases Answer.back_eq_matched matched
    have reaches := first.keeps forward inside
    have further := rest.keeps forward reaches.inRange
    have between := reaches.forward
    have behind := further.forward
    exact .pair (ih inside rfl (by omega)) (ihs reaches.inRange rfl (by omega))
  | manyEnd | manyMissed | manyIdle | manyNext => exact .many0 _
  | manyFailed => cases matched
  | optMissed | optTaken => exact .opt _
  | fullMatched _ _ ih => exact .allConsuming (ih inside matched stays)
  | labelMatched _ ih => exact .label (ih inside matched stays)
  | lazy _ ih => exact .lazy (ih inside matched stays)
  | noneLeft | allFailed | pairFailed | fullFailed | fullTrailing | labelMissed | labelFailed | unimplementedFailed
  | unimplementedMatched => cases matched

end

/-! ## Evaluations end -/

section
variable {Basic : (Input → Except Error Input) → Prop} {ι : Type} {defs : ι → Recipe Basic ι}

/-- There is an evaluation at the position. -/
def Ends (defs : ι → Recipe Basic ι) (t : Task Basic ι) (i : Input) : Prop := ∃ log answer, Evaluates defs t i log answer

theorem Ends.all {ps : List (Recipe Basic ι)} {i : Input} (h : Ends defs (.whole (.seq ps)) i) :
    Ends defs (.all ps) i := by
  obtain ⟨log, answer, evaluates⟩ := h
  cases evaluates with
  | seq evaluates => exact ⟨log, answer, evaluates⟩

/-- Every rule has an evaluation wherever something has been read since the position. -/
structure EndsBehind (defs : ι → Recipe Basic ι) (i : Input) : Prop where
  forward : ∀ {run : Input → Except Error Input}, Basic run → Forward run
  inside : i.InRange
  later : ∀ p j, i.Reaches j → j.pos ≠ i.pos → Ends defs (.whole p) j

mutual

/-- A rule has an evaluation at the position if those have one that it leads to. -/
theorem ends_of_leads {i : Input} (h : EndsBehind defs i) : (p : Recipe Basic ι) →
    (∀ k, Leads defs p k → Ends defs (.whole (defs k)) i) → Ends defs (.whole p) i
  | .basic run known, _ => ⟨_, _, .basic run known i⟩
  | .tag kind, _ => ⟨_, _, .tag kind i⟩
  | .oneOf kinds, _ => ⟨_, _, .oneOf kinds i⟩
  | .map p, leads => by
    obtain ⟨log, answer, inner⟩ := ends_of_leads h p fun k lead => leads k (.map lead)
    exact ⟨_, _, .map inner⟩
  | .alt ps, leads => by
    obtain ⟨log, answer, choice⟩ := first_ends_of_leads h ps none fun p hp k lead => leads k (.alt hp lead)
    exact ⟨_, _, .alt choice⟩
  | .seq ps, leads => by
    obtain ⟨log, answer, sequence⟩ := all_ends_of_leads h ps fun pre p post split idle k lead =>
      leads k (split ▸ .seq idle lead)
    exact ⟨_, _, .seq sequence⟩
  | .pair p q, leads => by
    obtain ⟨log, answer, first⟩ := ends_of_leads h p fun k lead => leads k (.pairFirst lead)
    cases answer with
    | failed e j => exact ⟨_, _, .pairFailed first⟩
    | matched j =>
      have reaches : i.Reaches j := first.keeps h.forward h.inside
      have second : Ends defs (.whole q) j := by
        by_cases stays : j.pos = i.pos
        · have idle := first.mayIdle h.forward h.inside rfl stays
          cases eq_of_reaches reaches stays
          exact ends_of_leads h q fun k lead => leads k (.pairSecond idle lead)
        · exact h.later q j reaches stays
      obtain ⟨more, answer, rest⟩ := second
      exact ⟨_, _, .pairNext first rest⟩
  | .many0 p, leads => by
    cases notEnd : i.atEnd with
    | true => exact ⟨_, _, .manyEnd notEnd⟩
    | false =>
      obtain ⟨log, answer, first⟩ := ends_of_leads h p fun k lead => leads k (.many0 lead)
      cases answer with
      | failed e j =>
        cases mismatch : e.isMismatch with
        | true => exact ⟨_, _, .manyMissed notEnd first mismatch⟩
        | false => exact ⟨_, _, .manyFailed notEnd first mismatch⟩
      | matched j =>
        by_cases stays : j.pos = i.pos
        · exact ⟨_, _, .manyIdle notEnd first stays⟩
        · obtain ⟨more, answer, rest⟩ := h.later (.many0 p) j (first.keeps h.forward h.inside) stays
          exact ⟨_, _, .manyNext notEnd first stays rest⟩
  | .opt p, leads => by
    obtain ⟨log, answer, inner⟩ := ends_of_leads h p fun k lead => leads k (.opt lead)
    cases missed : answer.isMissed with
    | true => exact ⟨_, _, .optMissed inner missed⟩
    | false => exact ⟨_, _, .optTaken inner missed⟩
  | .allConsuming p, leads => by
    obtain ⟨log, answer, inner⟩ := ends_of_leads h p fun k lead => leads k (.allConsuming lead)
    cases answer with
    | failed e j => exact ⟨_, _, .fullFailed inner⟩
    | matched j =>
      cases atEnd : j.atEnd with
      | true => exact ⟨_, _, .fullMatched inner atEnd⟩
      | false => exact ⟨_, _, .fullTrailing inner atEnd⟩
  | .label p what code, leads => by
    obtain ⟨log, answer, inner⟩ := ends_of_leads h p fun k lead => leads k (.label lead)
    cases answer with
    | matched j => exact ⟨_, _, .labelMatched inner⟩
    | failed e j =>
      by_cases here : e.isMismatch = true ∧ e.pos = i.pos
      · exact ⟨_, _, .labelMissed inner here⟩
      · exact ⟨_, _, .labelFailed inner here⟩
  | .unimplemented p feature, leads => by
    obtain ⟨log, answer, inner⟩ := ends_of_leads h p fun k lead => leads k (.unimplemented lead)
    cases answer with
    | matched j => exact ⟨_, _, .unimplementedMatched inner⟩
    | failed e j => exact ⟨_, _, .unimplementedFailed inner⟩
  | .lazy k, leads => by
    obtain ⟨log, answer, built⟩ := leads k (.lazy k)
    exact ⟨_, _, .lazy built⟩

theorem first_ends_of_leads {i : Input} (h : EndsBehind defs i) : (ps : List (Recipe Basic ι)) → (best : Option Error) →
    (∀ p ∈ ps, ∀ k, Leads defs p k → Ends defs (.whole (defs k)) i) → Ends defs (.first best ps) i
  | [], best, _ => ⟨_, _, .noneLeft best i⟩
  | p :: ps, best, leads => by
    obtain ⟨log, answer, first⟩ := ends_of_leads h p (leads p (.head _))
    cases missed : answer.isMissed with
    | false => exact ⟨_, _, .firstTaken first missed⟩
    | true =>
      cases answer with
      | matched j => cases missed
      | failed e j =>
        obtain ⟨more, answer, rest⟩ := first_ends_of_leads h ps (some ((best.map (·.furthest e.unwrapped)).getD e.unwrapped))
          fun q hq => leads q (.tail _ hq)
        exact ⟨_, _, .firstMissed first missed rest⟩

theorem all_ends_of_leads {i : Input} (h : EndsBehind defs i) : (ps : List (Recipe Basic ι)) →
    (∀ pre p post, ps = pre ++ p :: post → (∀ q ∈ pre, MayIdle defs q) → ∀ k, Leads defs p k →
      Ends defs (.whole (defs k)) i) → Ends defs (.all ps) i
  | [], _ => ⟨_, _, .allDone i⟩
  | p :: ps, leads => by
    obtain ⟨log, answer, first⟩ := ends_of_leads h p
      (leads [] p ps rfl fun q hq => absurd hq List.not_mem_nil)
    cases answer with
    | failed e j => exact ⟨_, _, .allFailed first⟩
    | matched j =>
      have reaches : i.Reaches j := first.keeps h.forward h.inside
      have others : Ends defs (.all ps) j := by
        by_cases stays : j.pos = i.pos
        · have idle := first.mayIdle h.forward h.inside rfl stays
          cases eq_of_reaches reaches stays
          exact all_ends_of_leads h ps fun pre q post split idles =>
            leads (p :: pre) q post (congrArg (p :: ·) split) (List.forall_mem_cons.2 ⟨idle, idles⟩)
        · exact (h.later (.seq ps) j reaches stays).all
      obtain ⟨more, answer, rest⟩ := others
      exact ⟨_, _, .allNext first rest⟩

end

end

/-- Without left recursion every rule has an evaluation at every position. -/
theorem exists_evaluates {Basic : (Input → Except Error Input) → Prop} {ι : Type} {defs : ι → Recipe Basic ι}
    (forward : ∀ {run : Input → Except Error Input}, Basic run → Forward run) (guarded : Guarded defs)
    (p : Recipe Basic ι) {i : Input} (inside : i.InRange) : ∃ log answer, Evaluates defs (.whole p) i log answer := by
  induction left : i.left using Nat.strongRecOn generalizing p i with
  | ind n ih =>
    have later (p : Recipe Basic ι) (j : Input) (reaches : i.Reaches j) (moved : j.pos ≠ i.pos) :
        Ends defs (.whole p) j :=
      ih j.left (left ▸ left_lt_of_reaches reaches moved) p reaches.inRange rfl
    have named (k : ι) : Ends defs (.whole (defs k)) i := by
      induction k using guarded.induction with
      | h k led => exact ends_of_leads ⟨forward, inside, later⟩ (defs k) led
    exact ends_of_leads ⟨forward, inside, later⟩ p fun k _ => named k

/-! ## Evaluations that never end -/

section
variable {Basic : (Input → Except Error Input) → Prop} {ι : Type}

/-- Whatever the input, the rule begins by invoking the one with the name `k`. -/
inductive Heads : Recipe Basic ι → ι → Prop
  | lazy (k : ι) : Heads (.lazy k) k
  | map {p : Recipe Basic ι} {k : ι} : Heads p k → Heads (.map p) k
  | alt {p : Recipe Basic ι} {k : ι} (ps : List (Recipe Basic ι)) : Heads p k → Heads (.alt (p :: ps)) k
  | seq {p : Recipe Basic ι} {k : ι} (ps : List (Recipe Basic ι)) : Heads p k → Heads (.seq (p :: ps)) k
  | pair {p : Recipe Basic ι} {k : ι} (q : Recipe Basic ι) : Heads p k → Heads (.pair p q) k
  | opt {p : Recipe Basic ι} {k : ι} : Heads p k → Heads (.opt p) k
  | allConsuming {p : Recipe Basic ι} {k : ι} : Heads p k → Heads (.allConsuming p) k
  | label {p : Recipe Basic ι} {k : ι} (what : Bytes) (code : Code) : Heads p k → Heads (.label p what code) k
  | unimplemented {p : Recipe Basic ι} {k : ι} (feature : Bytes) : Heads p k → Heads (.unimplemented p feature) k

variable {defs : ι → Recipe Basic ι}

/-- The evaluation has one of the recipe in it, at the same position and with less to do. -/
def Contains (defs : ι → Recipe Basic ι) (q : Recipe Basic ι) (i : Input) (log : List Step) : Prop :=
  ∃ log' answer, Evaluates defs (.whole q) i log' answer ∧ log'.length < log.length

theorem Contains.mono {q : Recipe Basic ι} {i : Input} {log longer : List Step} (inner : Contains defs q i log)
    (le : log.length ≤ longer.length) : Contains defs q i longer := by
  obtain ⟨log', answer, evaluates, less⟩ := inner
  exact ⟨log', answer, evaluates, Nat.lt_of_lt_of_le less le⟩

theorem length_le_invocation (i : Input) (log : List Step) (answer : Answer) :
    log.length ≤ (invocation i log answer).length := by
  rw [invocation, List.length_cons, List.length_append]
  omega

theorem length_le_append_invocation (i : Input) (log : List Step) (answer : Answer) (more : List Step) :
    log.length ≤ (invocation i log answer ++ more).length := by
  rw [List.length_append]
  exact Nat.le_trans (length_le_invocation i log answer) (Nat.le_add_right _ _)

theorem Heads.contains {p : Recipe Basic ι} {k : ι} (h : Heads p k) {i : Input} {log : List Step} {answer : Answer}
    (evaluates : Evaluates defs (.whole p) i log answer) : Contains defs (defs k) i log := by
  induction h generalizing log answer with
  | lazy k =>
    cases evaluates with
    | lazy built =>
      refine ⟨_, _, built, ?_⟩
      rw [invocation, List.length_cons, List.length_append]
      omega
  | map _ ih =>
    cases evaluates with
    | map inner => exact (ih inner).mono (length_le_invocation ..)
  | alt ps _ ih =>
    cases evaluates with
    | alt choice =>
      cases choice with
      | firstMissed first _ _ => exact (ih first).mono (length_le_append_invocation ..)
      | firstTaken first _ => exact (ih first).mono (length_le_invocation ..)
  | seq ps _ ih =>
    cases evaluates with
    | seq sequence =>
      cases sequence with
      | allFailed first => exact (ih first).mono (length_le_invocation ..)
      | allNext first _ => exact (ih first).mono (length_le_append_invocation ..)
  | pair q _ ih =>
    cases evaluates with
    | pairFailed first => exact (ih first).mono (length_le_invocation ..)
    | pairNext first _ => exact (ih first).mono (length_le_append_invocation ..)
  | opt _ ih =>
    cases evaluates with
    | optMissed inner _ | optTaken inner _ => exact (ih inner).mono (length_le_invocation ..)
  | allConsuming _ ih =>
    cases evaluates with
    | fullFailed inner | fullMatched inner _ | fullTrailing inner _ => exact (ih inner).mono (length_le_invocation ..)
  | label what code _ ih =>
    cases evaluates with
    | labelMatched inner | labelMissed inner _ | labelFailed inner _ =>
      exact (ih inner).mono (length_le_invocation ..)
  | unimplemented feature _ ih =>
    cases evaluates with
    | unimplementedFailed inner | unimplementedMatched inner => exact (ih inner).mono (length_le_invocation ..)

/-- A lazy rule that begins by invoking itself has no evaluation anywhere. -/
theorem left_recursion_never_ends {k : ι} (itself : Heads (defs k) k) (i : Input) (log : List Step) (answer : Answer) :
    ¬Evaluates defs (.whole (defs k)) i log answer := by
  induction size : log.length using Nat.strongRecOn generalizing log answer with
  | ind n ih =>
    intro evaluates
    obtain ⟨log', answer', inner, less⟩ := itself.contains evaluates
    exact ih log'.length (size ▸ less) log' answer' rfl inner

end

end LetStack.Grammar
