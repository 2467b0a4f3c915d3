import BoolCalc.Proofs.Spelling

/-!
# What a Run Reports

The reports of a run of the parsing machine, cut into one round for each symbol.

A round begins when a symbol is read and ends when the next one is. What is
reported in it follows from the symbol, but for two things. A leaf is reported
late, in the round of the symbol after it, so that a round may owe a leaf to the
next. And an operator is reported once for each level of precedence at which
it is weighed. `Round.Fits` lists the shapes that a round can have, with the leaf
that is owed before and after it. A fact about reports is then a case analysis
on these shapes, and an induction on `Rounds` carries it to a whole run.

How often an operator is weighed is decided by the stack. It is weighed against
each operator on top that binds at least as tightly, and once more where it
stays. Operators lie on the stack in the order of how tightly they bind, as
each was put where a level is awaited that allows it. So the level that the
stack awaits says how many of them there can be (`weigh_log`), and as there are
only two precedences a conjunction is weighed at most twice and a disjunction
at most three times.

## Main definitions

* `BinaryOp.levels`: How many levels can look at an operator.
* `Round`, `Round.Fits`: What is reported for one symbol.
* `Stage.owed`: The leaf that has yet to be reported.
* `Rounds`: What is reported for some characters.
* `lastReport`: What is reported where a run stops.

## Theorems

* `weigh_log`: How often an operator is weighed.
* `fits_of_advance`: What is reported when the machine goes on.
* `consume_rounds`: What a run reports.
-/

namespace BoolCalc

/-- How many levels can look at an operator: those from its own to that of
    factors. -/
def BinaryOp.levels : BinaryOp → Nat
  | conj => 2
  | disj => 3

theorem levels_eq (op : BinaryOp) : (op.levels : Int) = Level.factor.floor - op.precedence + 1 := by
  cases op <;> rfl

/-- Whether an event is that something was taken from the source. -/
def Event.isToken : Event → Bool
  | tokenRead _ | endReached => true
  | termStart _ | leafReached _ | operatorWeighed _ | constructed _ _ => false

section Answers

variable {limit : Nat} {goal : Goal}

/-- Weighing an operator reports nothing but the operator. -/
theorem eq_of_mem_weigh_log {op : BinaryOp} {e : Expr} {p : List Pending} {event : Event}
    (h : event ∈ (weigh goal op e p).1) : event = .operatorWeighed op := by
  -- The stack is taken down to where the operator is put, reporting it at each level.
  induction p generalizing e with
  | nil =>
      cases goal with
      | term => exact absurd h List.not_mem_nil
      | expression bound whole => exact List.mem_singleton.mp h
  | cons top rest ih =>
      cases top with
      | negation => exact ih h
      | group => exact List.mem_singleton.mp h
      | operator left before =>
          rw [weigh] at h
          by_cases hle : op.precedence ≤ before.precedence
          · rw [if_pos hle] at h
            -- The operator on the left is joined first, and below it the same one is weighed.
            exact (List.mem_cons.mp h).elim id ih
          · rw [if_neg hle] at h
            exact List.mem_singleton.mp h

/-- An operator is weighed at least once, and at most once for each level from
    its own to the one that the stack awaits. -/
theorem weigh_log {bound : Int} {whole : Bool} (op : BinaryOp) (e : Expr) {p : List Pending}
    {w : List Char} (h : Spells (.expression bound whole) p w) :
    ∃ n : Nat, (weigh (.expression bound whole) op e p).1 =
        List.replicate n (.operatorWeighed op) ∧
      1 ≤ n ∧
      (n : Int) ≤ max 1 ((awaited (.expression bound whole) p).floor - op.precedence + 1) := by
  induction h generalizing e with
  | nil => exact ⟨1, rfl, Nat.le_refl 1, Int.le_max_left _ _⟩
  | @negation p w _ ih =>
      -- A negation is put around the operand without weighing anything.
      rcases ih e.negation with ⟨n, hlog, hpos, hle⟩
      refine ⟨n, hlog, hpos, ?_⟩
      have := floor_le_factor_floor (awaited (.expression bound whole) p)
      rw [show awaited (.expression bound whole) (.negation :: p) = .factor from rfl]
      omega
  -- A bracket ends the weighing.
  | group _ _ => exact ⟨1, rfl, Nat.le_refl 1, Int.le_max_left _ _⟩
  | @operator p w v left before _ ha _ ih =>
      have hfloor : (awaited (.expression bound whole) (.operator left before :: p)).floor =
          before.precedence + 1 := before.rightLevel_floor
      rw [weigh, hfloor]
      by_cases hle : op.precedence ≤ before.precedence
      · -- What lies below awaits no more than the operator above it allows.
        rcases ih (.connect before left e) with ⟨n, hlog, hpos, hn⟩
        refine ⟨n + 1, ?_, by omega, by omega⟩
        rw [if_pos hle, List.replicate_succ, ← hlog]
      · -- The operator on the left binds more loosely, so the weighing ends at it.
        refine ⟨1, ?_, Nat.le_refl 1, Int.le_max_left _ _⟩
        rw [if_neg hle]
        rfl

/-- Nothing is reported of a symbol after an operand unless it is an operator. -/
theorem follow_log (e : Expr) (p : List Pending) {s : Symbol} (hs : ∀ op, s ≠ .operator op) :
    (follow goal e p s).1 = [] := by
  cases s with
  | operator op => exact absurd rfl (hs op)
  | negation | constant b | identifier c | openParen | closeParen =>
      simp only [follow]
      rcases reduce e p with ⟨e', _ | outer⟩
      · rfl
      · rfl

end Answers

/-- The leaf that has been read at a stage and has yet to be reported. -/
def Stage.owed : Stage → Option Char
  | .leaf c _ => some c
  | .want _ | .complete _ _ => none

/-- The report of a leaf, if there is one. -/
def leafReport (owed : Option Char) : List Event := (owed.map Event.leafReached).toList

/-- After an operand the leaf is reported first, if the operand is one. -/
theorem respond_log_operand (limit : Nat) (goal : Goal) {σ : Stage} {e : Expr} {p : List Pending}
    (ho : σ.operand? = some (e, p)) (s : Symbol) :
    (respond limit goal σ s).1 = leafReport σ.owed ++ (follow goal e p s).1 := by
  rcases operand_cases ho with ⟨c, rfl, rfl⟩ | rfl
  · rfl
  · rfl

theorem conclude_log_operand (goal : Goal) {σ : Stage} {e : Expr} {p : List Pending}
    (ho : σ.operand? = some (e, p)) : (conclude goal σ).1 = leafReport σ.owed := by
  rcases operand_cases ho with ⟨c, rfl, rfl⟩ | rfl
  · rfl
  · rfl

theorem isToken_of_mem_leafReport {owed : Option Char} {event : Event}
    (h : event ∈ leafReport owed) : event.isToken = false := by
  cases owed with
  | none => exact absurd h List.not_mem_nil
  | some c => rw [List.mem_singleton.mp h]; rfl

/-- An answer to a symbol reports nothing of what is taken from the source. -/
theorem isToken_of_mem_respond_log {limit : Nat} {goal : Goal} {σ : Stage} {s : Symbol}
    {event : Event} (h : event ∈ (respond limit goal σ s).1) : event.isToken = false := by
  cases ho : σ.operand? with
  | none =>
      -- Before an operand nothing is reported but its beginning.
      cases σ with
      | leaf c p | complete e p => exact absurd ho nofun
      | want p => rw [List.mem_singleton.mp h]; rfl
  | some operand =>
      rcases operand with ⟨e, p⟩
      rw [respond_log_operand limit goal ho, List.mem_append] at h
      rcases h with h | h
      · exact isToken_of_mem_leafReport h
      · -- After an operand a leaf may be settled and an operator weighed.
        by_cases hop : ∃ op, s = .operator op
        · rcases hop with ⟨op, rfl⟩
          rw [eq_of_mem_weigh_log h]
          rfl
        · rw [follow_log e p fun op hs => hop ⟨op, hs⟩] at h
          exact absurd h List.not_mem_nil

/-- What is reported from the reading of a symbol until the next one is read. -/
structure Round where
  /-- The symbol that is read. -/
  symbol : Symbol
  /-- What is reported after it. -/
  report : List Event

namespace Round

/-- All that is reported in a round. -/
def events (t : Round) : List Event := .tokenRead t.symbol :: t.report

/-- The shapes of a round, with the leaf that is owed before it and the one that
    is owed after it. -/
inductive Fits : Option Char → Round → Option Char → Prop
  | opening {s : Symbol} (hs : s = .negation ∨ s = .openParen) :
      Fits none ⟨s, [.termStart (some s)]⟩ none
  | leaf {s : Symbol} (hs : s.isLeaf = true) :
      Fits none ⟨s, [.termStart (some s)]⟩ (some s.char)
  | close (owed : Option Char) : Fits owed ⟨.closeParen, leafReport owed⟩ none
  | operator (owed : Option Char) {op : BinaryOp} {n : Nat} (hpos : 1 ≤ n) (hle : n ≤ op.levels) :
      Fits owed ⟨.operator op, leafReport owed ++ List.replicate n (.operatorWeighed op)⟩ none

end Round

/-- When the machine goes on, its round has one of the shapes. -/
theorem fits_of_advance {limit : Nat} {bound : Int} {whole : Bool} {σ τ : Stage} {s : Symbol}
    {log : List Event} {w : List Char} (h : StageSpells (.expression bound whole) σ w)
    (hs : respond limit (.expression bound whole) σ s = (log, .advance τ)) :
    Round.Fits σ.owed ⟨s, log⟩ τ.owed := by
  have hlog : log = (respond limit (.expression bound whole) σ s).1 := by rw [hs]
  rw [hlog]
  cases advances_of_advance (by rw [hs]) with
  | negation _ => exact Round.Fits.opening (Or.inl rfl)
  | group _ => exact Round.Fits.opening (Or.inr rfl)
  | leaf hleaf => exact Round.Fits.leaf hleaf
  | @operator _ _ _ _ _ op ho _ _ =>
      cases h with
      | want _ => exact absurd ho nofun
      | @operand _ e p _ _ ho' hp _ =>
          rcases weigh_log op e hp with ⟨n, hweigh, hpos, hle⟩
          rw [respond_log_operand limit _ ho', follow, hweigh]
          -- No stack awaits more than a factor.
          refine Round.Fits.operator _ hpos ?_
          have hfloor := floor_le_factor_floor (awaited (.expression bound whole) p)
          have hlevels := levels_eq op
          have := precedence_lt_factor_floor op
          omega
  | close ho _ =>
      have hn : ∀ op, Symbol.closeParen ≠ .operator op := fun _ => nofun
      rw [respond_log_operand limit _ ho, follow_log _ _ hn, List.append_nil]
      exact Round.Fits.close _

/-- The rounds of some characters, with the leaf that is owed before the first of
    them and after the last. -/
inductive Rounds : Option Char → List Char → List Round → Option Char → Prop
  | nil (owed : Option Char) : Rounds owed [] [] owed
  | cons {owed owed' owed'' : Option Char} {c : Char} {cs : List Char} {t : Round} {ts : List Round}
      (hc : Symbol.classify c = .ok t.symbol) (ht : t.Fits owed owed')
      (h : Rounds owed' cs ts owed'') : Rounds owed (c :: cs) (t :: ts) owed''

/-- What is reported where a run stops: the end of the input or the next symbol,
    unless the next character stands for none. -/
def lastReport (limit : Nat) (goal : Goal) (σ : Stage) : List Char → List Event
  | [] => .endReached :: (conclude goal σ).1
  | c :: _ =>
    match Symbol.classify c with
    | .error _ => []
    | .ok s => .tokenRead s :: (respond limit goal σ s).1

/-- A run reports a round for each character of its walk, and then what is
    reported where it stops. -/
theorem consume_rounds (limit : Nat) {bound : Int} {whole : Bool} (current : Option Token)
    {σ : Stage} (cs : List Char) (index : Nat) {w : List Char}
    (h : StageSpells (.expression bound whole) σ w) :
    ∃ v rest τ outcome ts, cs = v ++ rest ∧ Walk limit (.expression bound whole) σ v τ ∧
      verdict limit (.expression bound whole) τ rest = some outcome ∧
      Rounds σ.owed v ts τ.owed ∧
      (consume limit (.expression bound whole) current σ cs index).log =
        ts.flatMap Round.events ++ lastReport limit (.expression bound whole) τ rest := by
  induction cs generalizing σ current index w with
  | nil => exact ⟨[], [], σ, _, [], rfl, Walk.stay σ, rfl, Rounds.nil _, rfl⟩
  | cons c rest ih =>
      cases hc : Symbol.classify c with
      -- A character that stands for nothing stops the run before its round begins.
      | error fault =>
          refine ⟨[], c :: rest, σ, _, [], rfl, Walk.stay σ,
            verdict_badSymbol limit _ σ rest hc, Rounds.nil _, ?_⟩
          rw [consume_badSymbol current rest index hc]
          simp only [lastReport, hc]
          rfl
      | ok s =>
          rcases hs : respond limit (.expression bound whole) σ s with ⟨log, move⟩
          by_cases hmove : ∃ τ, move = .advance τ
          · rcases hmove with ⟨τ, rfl⟩
            -- One more round, and the stack spells the text with its character.
            have hmoved : (respond limit (.expression bound whole) σ s).2 = .advance τ := by
              rw [hs]
            have hnext := stageSpells_of_advances h hc (advances_of_advance hmoved)
            rcases ih (some ⟨some s, index⟩) (index + 1) hnext with
              ⟨v, rest', υ, outcome, ts, rfl, hw, ho, hts, hlog⟩
            refine ⟨c :: v, rest', υ, outcome, ⟨s, log⟩ :: ts, rfl, Walk.step hc hmoved hw, ho,
              Rounds.cons hc (fits_of_advance h hs) hts, ?_⟩
            rw [consume_advance current _ index hc hs, Run.after, hlog, List.flatMap_cons]
            simp only [Round.events, List.cons_append, List.append_assoc]
          · -- The machine stops, and the symbol has been read.
            have hstop : ∃ outcome, move.outcome? = some outcome := by
              cases move with
              | advance τ => exact absurd ⟨τ, rfl⟩ hmove
              | accept e | refuse cause => exact ⟨_, rfl⟩
            rcases hstop with ⟨outcome, ho⟩
            refine ⟨[], c :: rest, σ, outcome, [], rfl, Walk.stay σ, ?_, Rounds.nil _, ?_⟩
            · rw [verdict_symbol limit _ σ rest hc, hs, ho]
            · rw [consume_stop current rest index hc hs ho]
              simp only [lastReport, hc, hs]
              rfl

end BoolCalc
