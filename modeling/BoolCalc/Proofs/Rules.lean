import BoolCalc.Proofs.Stack

/-!
# The Rules of the Parsing Machine

Everything the machine can answer, as rules.

`respond` and `conclude` are functions that recurse over the stack. What they
amount to is a handful of rules: five ways of going on, gathered in
`Advances`, and four ways of stopping, gathered in `Stops`. In the rules the
recursion over the stack is a `Settles`, so a proof about the machine is a
case analysis on the rules and never opens the functions again.

For going on, the rules say exactly what the function does. For stopping, they
are what a proof has to consider: the end of the input is a stop at no symbol,
so the two functions need not be told apart.

## Main definitions

* `Advances`: The rules for going on.
* `Stops`: The rules for stopping.
* `ahead`: The symbol the machine has to answer, if any is left.

## Theorems

* `follow_of_not_operator`: The answer to what is no operator.
* `advance_of_advances`: The machine follows every rule for going on.
* `respond_cases`: It goes on by a rule or stops by one.
* `stops_of_verdict`: A verdict is a bad character or a stop by a rule.
* `limit_le_of_stops`: Nesting is refused only when there is no room left.
* `nesting_le_of_walk`: A walk opens at most one construct a character.
-/

namespace BoolCalc

/-- The rules for going on from one stage to another after a symbol. -/
inductive Advances (limit : Nat) (goal : Goal) : Stage → Symbol → Stage → Prop
  | negation {p : List Pending} (hn : nesting p < limit) :
      Advances limit goal (.want p) .negation (.want (.negation :: p))
  | group {p : List Pending} (hn : nesting p < limit) :
      Advances limit goal (.want p) .openParen (.want (.group :: p))
  | leaf {p : List Pending} {s : Symbol} (hs : s.isLeaf = true) :
      Advances limit goal (.want p) s (.leaf s.char p)
  | operator {σ : Stage} {e e' : Expr} {p p' : List Pending} {op : BinaryOp}
      (ho : σ.operand? = some (e, p)) (hs : Settles op.precedence e p e' p')
      (ha : (awaited goal p').floor ≤ op.precedence) :
      Advances limit goal σ (.operator op) (.want (.operator e' op :: p'))
  | close {σ : Stage} {e e' : Expr} {p outer : List Pending}
      (ho : σ.operand? = some (e, p)) (hs : Settles Level.sum.floor e p e' (.group :: outer)) :
      Advances limit goal σ .closeParen (.complete e' outer)

/-- The rules for stopping before a symbol, or at the end of the input where
    there is none. -/
inductive Stops (limit : Nat) (goal : Goal) : Stage → Option Symbol → Except Cause Expr → Prop
  | noTerm {p : List Pending} {next : Option Symbol}
      (hn : next = none ∨ next = some .closeParen ∨ ∃ op, next = some (.operator op)) :
      Stops limit goal (.want p) next (.error .noTerm)
  | tooDeep {p : List Pending} {s : Symbol} (hs : s = .negation ∨ s = .openParen)
      (hn : limit ≤ nesting p) :
      Stops limit goal (.want p) (some s) (.error .tooDeep)
  | operator {σ : Stage} {e e' : Expr} {p : List Pending} {op : BinaryOp}
      (ho : σ.operand? = some (e, p)) (hs : Settles op.precedence e p e' [])
      (hb : op.precedence < goal.level.floor) :
      Stops limit goal σ (some (.operator op)) (goal.finish (some (.operator op)) e')
  | finished {σ : Stage} {e e' : Expr} {p : List Pending} {next : Option Symbol}
      (ho : σ.operand? = some (e, p)) (hs : Settles Level.sum.floor e p e' [])
      (hn : ∀ op, next ≠ some (.operator op)) :
      Stops limit goal σ next (goal.finish next e')
  | missingClose {σ : Stage} {e e' : Expr} {p outer : List Pending} {next : Option Symbol}
      (ho : σ.operand? = some (e, p)) (hs : Settles Level.sum.floor e p e' (.group :: outer))
      (hn : ∀ op, next ≠ some (.operator op)) (hc : next ≠ some .closeParen) :
      Stops limit goal σ next (.error (.missingClose next))

theorem follow_of_not_operator (goal : Goal) (e : Expr) (p : List Pending) {s : Symbol}
    (hs : ∀ op, s ≠ .operator op) :
    (follow goal e p s).2 = match reduce e p with
      | (e, none) => .ofFinish (goal.finish (some s) e)
      | (e, some outer) =>
        if s = .closeParen then .advance (.complete e outer)
        else .refuse (.missingClose (some s)) := by
  -- All symbols but the operators share one branch.
  have hr : follow goal e p s = match reduce e p with
      | (e, none) => ([], .ofFinish (goal.finish (some s) e))
      | (e, some outer) => ([], if s = .closeParen then .advance (.complete e outer)
        else .refuse (.missingClose (some s))) := by
    cases s with
    | operator op => exact absurd rfl (hs op)
    | negation | constant b | identifier c | openParen | closeParen => rfl
  rw [hr]
  rcases reduce e p with ⟨e', _ | outer⟩
  · rfl
  · rfl

theorem ofFinish_ne_advance (outcome : Except Cause Expr) (τ : Stage) :
    Move.ofFinish outcome ≠ .advance τ := by
  cases outcome with
  | ok e | error cause => exact nofun

section Answers

variable {limit : Nat} {goal : Goal}

theorem advance_of_advances {σ τ : Stage} {s : Symbol} (h : Advances limit goal σ s τ) :
    (respond limit goal σ s).2 = .advance τ := by
  cases h with
  | negation hn | group hn => exact if_pos hn
  | leaf hs =>
      cases s with
      | constant b | identifier c => rfl
      | negation | operator op | openParen | closeParen => exact absurd hs nofun
  | operator ho hs ha =>
      -- What the rule finishes first is what weighing would have finished.
      rw [respond_operand limit goal ho]
      exact (weigh_of_settles (Int.le_refl _) hs).trans (weigh_push _ ha)
  | close ho hs =>
      have hn : ∀ op, Symbol.closeParen ≠ .operator op := fun _ => nofun
      rw [respond_operand limit goal ho, follow_of_not_operator goal _ _ hn,
        reduce_of_settles hs]
      rfl

/-- At the end of the input the machine stops by one of the rules. -/
theorem stops_conclude (σ : Stage) : Stops limit goal σ none (conclude goal σ).2 := by
  -- Without an operand in hand the machine can only be waiting for one.
  cases ho : σ.operand? with
  | none =>
      cases σ with
      | leaf c p | complete e p => exact absurd ho nofun
      | want p => exact Stops.noTerm (Or.inl rfl)
  | some operand =>
      rcases operand with ⟨e, p⟩
      rw [conclude_operand goal ho, close]
      -- With one, reducing finds a group that is still open or empties the stack.
      rcases reduce_cases e p with ⟨e', ⟨hs, hr⟩ | ⟨outer, hs, hr⟩⟩
      · rw [hr]
        exact Stops.finished ho hs nofun
      · rw [hr]
        exact Stops.missingClose ho hs nofun nofun

theorem openConstruct_cases (construct : Pending) (p : List Pending) :
    nesting p < limit ∧ openConstruct limit construct p = .advance (.want (construct :: p)) ∨
      limit ≤ nesting p ∧ openConstruct limit construct p = .refuse .tooDeep := by
  unfold openConstruct
  by_cases hn : nesting p < limit
  · exact Or.inl ⟨hn, if_pos hn⟩
  · exact Or.inr ⟨Nat.not_lt.mp hn, if_neg hn⟩

/-- Where an operand is wanted, a symbol opens something, is a leaf, or stops
    the machine. -/
theorem respond_want_cases (p : List Pending) (s : Symbol) :
    (∃ τ, (respond limit goal (.want p) s).2 = .advance τ ∧ Advances limit goal (.want p) s τ) ∨
      ∃ outcome, (respond limit goal (.want p) s).2 = .ofFinish outcome ∧
        Stops limit goal (.want p) (some s) outcome := by
  -- A prefix operator and a group may be one construct too many; nothing else may.
  cases s with
  | negation =>
      rcases openConstruct_cases .negation p with ⟨hn, hopen⟩ | ⟨hn, hopen⟩
      · exact Or.inl ⟨_, hopen, Advances.negation hn⟩
      · exact Or.inr ⟨.error .tooDeep, hopen, Stops.tooDeep (Or.inl rfl) hn⟩
  | openParen =>
      rcases openConstruct_cases .group p with ⟨hn, hopen⟩ | ⟨hn, hopen⟩
      · exact Or.inl ⟨_, hopen, Advances.group hn⟩
      · exact Or.inr ⟨.error .tooDeep, hopen, Stops.tooDeep (Or.inr rfl) hn⟩
  | constant b => exact Or.inl ⟨.leaf b.char p, rfl, Advances.leaf rfl⟩
  | identifier c => exact Or.inl ⟨.leaf c p, rfl, Advances.leaf rfl⟩
  | operator op =>
      exact Or.inr ⟨.error .noTerm, rfl, Stops.noTerm (Or.inr (Or.inr ⟨op, rfl⟩))⟩
  | closeParen => exact Or.inr ⟨.error .noTerm, rfl, Stops.noTerm (Or.inr (Or.inl rfl))⟩

/-- Whatever the symbol, the machine goes on by a rule or stops by one. -/
theorem respond_cases (σ : Stage) (s : Symbol) :
    (∃ τ, (respond limit goal σ s).2 = .advance τ ∧ Advances limit goal σ s τ) ∨
      ∃ outcome, (respond limit goal σ s).2 = .ofFinish outcome ∧
        Stops limit goal σ (some s) outcome := by
  cases ho : σ.operand? with
  | none =>
      -- A stage that has no operand is one that wants one.
      cases σ with
      | leaf c p | complete e p => exact absurd ho nofun
      | want p => exact respond_want_cases p s
  -- With an operand in hand, the symbol decides what becomes of the stack.
  | some operand =>
      rcases operand with ⟨e, p⟩
      rw [respond_operand limit goal ho]
      by_cases hop : ∃ op, s = .operator op
      · -- An operator goes on the stack unless nothing is open and the goal ends.
        rcases hop with ⟨op, rfl⟩
        rcases weigh_cases goal op e p with ⟨e', p', hs, ⟨ha, hw⟩ | ⟨rfl, hb, hw⟩⟩
        · exact Or.inl ⟨_, hw, Advances.operator ho hs ha⟩
        · exact Or.inr ⟨_, hw, Stops.operator ho hs hb⟩
      · -- Anything else is for the nearest group, or ends the expression.
        have hn : ∀ op, some s ≠ some (.operator op) :=
          fun op hs => hop ⟨op, Option.some.inj hs⟩
        rw [follow_of_not_operator goal e p (fun op hs => hop ⟨op, hs⟩)]
        rcases reduce_cases e p with ⟨e', ⟨hs, hr⟩ | ⟨outer, hs, hr⟩⟩
        · rw [hr]
          exact Or.inr ⟨_, rfl, Stops.finished ho hs hn⟩
        · rw [hr]
          by_cases hc : s = .closeParen
          · subst hc
            exact Or.inl ⟨_, rfl, Advances.close ho hs⟩
          · have hclose : some s ≠ some .closeParen := fun hs => hc (Option.some.inj hs)
            exact Or.inr ⟨_, if_neg hc, Stops.missingClose ho hs hn hclose⟩

theorem advances_of_advance {σ τ : Stage} {s : Symbol}
    (h : (respond limit goal σ s).2 = .advance τ) : Advances limit goal σ s τ := by
  rcases respond_cases σ s with ⟨τ', hτ, ha⟩ | ⟨outcome, hs, _⟩
  · have heq := hτ.symm.trans h
    rw [Move.advance.injEq] at heq
    rwa [← heq]
  · exact absurd (hs.symm.trans h) (ofFinish_ne_advance _ _)

theorem outcome?_ofFinish (outcome : Except Cause Expr) :
    (Move.ofFinish outcome).outcome? = some outcome := by
  cases outcome with
  | ok e | error cause => rfl

theorem stops_of_outcome {σ : Stage} {s : Symbol} {outcome : Except Cause Expr}
    (h : (respond limit goal σ s).2.outcome? = some outcome) :
    Stops limit goal σ (some s) outcome := by
  rcases respond_cases σ s with ⟨τ, hτ, _⟩ | ⟨outcome', ho, hs⟩
  · rw [hτ] at h
    exact absurd h nofun
  · rw [ho, outcome?_ofFinish, Option.some.injEq] at h
    rwa [← h]

end Answers

/-- The symbol that the machine has to answer, if any is left, or why there is
    none. -/
def ahead : List Char → Except SymbolFault (Option Symbol)
  | [] => .ok none
  | c :: _ => (Symbol.classify c).map some

/-- A verdict is about a bad character, or it is a stop by one of the
    rules. -/
theorem stops_of_verdict {limit : Nat} {goal : Goal} {σ : Stage} {rest : List Char}
    {outcome : Except Cause Expr} (h : verdict limit goal σ rest = some outcome) :
    (∃ c rest' fault, rest = c :: rest' ∧ Symbol.classify c = .error fault ∧
        outcome = .error (.badSymbol fault c)) ∨
      ∃ next, ahead rest = .ok next ∧ Stops limit goal σ next outcome := by
  cases rest with
  | nil =>
      -- At the end there is no character left that could be bad.
      simp only [verdict, Option.some.injEq] at h
      rw [← h]
      exact Or.inr ⟨none, rfl, stops_conclude σ⟩
  | cons c rest =>
      cases hc : Symbol.classify c with
      | error fault =>
          rw [verdict_badSymbol limit goal σ rest hc, Option.some.injEq] at h
          exact Or.inl ⟨c, rest, fault, rfl, hc, h.symm⟩
      | ok s =>
          rw [verdict_symbol limit goal σ rest hc] at h
          refine Or.inr ⟨some s, ?_, stops_of_outcome h⟩
          rw [ahead, hc]
          rfl

/-- Nesting is refused only before a symbol, when there is no room left. -/
theorem limit_le_of_stops {limit : Nat} {goal : Goal} {σ : Stage} {next : Option Symbol}
    {outcome : Except Cause Expr} (h : Stops limit goal σ next outcome)
    (hdeep : outcome = .error .tooDeep) : next ≠ none ∧ limit ≤ nesting σ.pending := by
  -- A goal can refuse what follows a tree, but for another cause.
  have hfinish : ∀ next e, goal.finish next e ≠ .error .tooDeep := by
    intro next e
    unfold Goal.finish
    split
    · exact nofun
    · exact nofun
  cases h with
  | noTerm _ | missingClose _ _ _ _ => exact absurd hdeep nofun
  | operator _ _ _ | finished _ _ _ => exact absurd hdeep (hfinish _ _)
  | tooDeep _ hn => exact ⟨nofun, hn⟩

theorem nesting_le_of_advances {limit : Nat} {goal : Goal} {σ τ : Stage} {s : Symbol}
    (h : Advances limit goal σ s τ) : nesting τ.pending ≤ nesting σ.pending + 1 := by
  cases h with
  | negation _ | group _ => exact nesting_cons_le _ _
  | leaf _ => exact Nat.le_succ _
  | operator ho hs _ =>
      rw [pending_of_operand ho]
      exact Nat.le_trans (nesting_cons_le _ _) (Nat.succ_le_succ (nesting_of_settles hs))
  | close ho hs =>
      -- Finishing constructs and closing a group only take away.
      rw [pending_of_operand ho]
      exact Nat.le_succ_of_le (Nat.le_trans (nesting_le_cons _ _) (nesting_of_settles hs))

/-- A walk opens at most one construct for each of its characters. -/
theorem nesting_le_of_walk {limit : Nat} {goal : Goal} {σ τ : Stage} {v : List Char}
    (h : Walk limit goal σ v τ) : nesting τ.pending ≤ nesting σ.pending + v.length := by
  induction h with
  | stay σ => exact Nat.le_refl _
  | step _ hs _ ih =>
      have := nesting_le_of_advances (advances_of_advance hs)
      simp only [List.length_cons]
      omega

end BoolCalc
