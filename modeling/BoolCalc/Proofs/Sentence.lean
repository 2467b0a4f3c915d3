import BoolCalc.Proofs.Rules

/-!
# Reading a Sentence

The parsing machine reads every sentence and arrives at its tree.

The induction is on how the sentence is derived, and it has to say where the
machine stands after a sentence that is only a part of the source. It does not
stand at the finished tree: what the sentence has left open at its right end
is finished only when the next symbol comes. `Reads` therefore says that the
machine has an operand which settles to the tree, down to the floor of the
sentence's level, with the stack back where it was. Whatever may follow the
sentence finishes at least that much, so the difference is never seen.

A sentence can be read only where the stack awaits its level, for otherwise an
operator in it would finish something below. It needs no more nesting than it
has characters, which is all that the limit is asked for.

## Main definitions

* `Reads`: A walk to an operand that settles to a tree.

## Theorems

* `reads_negation`, `reads_group`, `reads_connect`: One for each way of
  putting sentences together.
* `reads_of_derives`: A sentence is read to its tree.
* `verdict_of_settles`: What the machine says when everything is finished.
* `consume_of_reads`, `consume_of_derives`: A run over a sentence ends with its
  tree.
-/

namespace BoolCalc

variable {limit : Nat} {goal : Goal}

theorem walk_of_leaf {c : Char} (hc : isOperand c = true) (p : List Pending) :
    Walk limit goal (.want p) [c] (.leaf c p) := by
  rcases (Symbol.classify_eq_leaf_iff c).mpr hc with ⟨s, hs, hleaf⟩
  have hadvance : (respond limit goal (.want p) s).2 = .advance (.leaf s.char p) :=
    advance_of_advances (Advances.leaf hleaf)
  rw [Symbol.char_of_classify hs] at hadvance
  exact Walk.step hs hadvance (Walk.stay _)

/-- A walk from an operand wanted to an operand that settles to `e`, with the
    stack as it was at the start. -/
def Reads (limit : Nat) (goal : Goal) (lvl : Level) (p : List Pending) (w : List Char)
    (e : Expr) : Prop :=
  ∃ σ e' p', Walk limit goal (.want p) w σ ∧ σ.operand? = some (e', p') ∧
    Settles lvl.floor e' p' e p

theorem reads_leaf {c : Char} (hc : isOperand c = true) (lvl : Level) (p : List Pending) :
    Reads limit goal lvl p [c] (.symbol c) :=
  ⟨.leaf c p, .symbol c, p, walk_of_leaf hc p, rfl, Settles.refl _ _⟩

theorem reads_lift {tight loose : Level} (hle : loose.floor ≤ tight.floor) {p : List Pending}
    {w : List Char} {e : Expr} (h : Reads limit goal tight p w e) :
    Reads limit goal loose p w e := by
  rcases h with ⟨σ, e', p', hw, ho, hs⟩
  exact ⟨σ, e', p', hw, ho, settles_lower hle hs⟩

/-- A negation is put on the stack, and the factor after it finishes it. -/
theorem reads_negation {p : List Pending} {w : List Char} {e : Expr} (hn : nesting p < limit)
    (h : Reads limit goal .factor (.negation :: p) w e) :
    Reads limit goal .factor p ('!' :: w) e.negation := by
  rcases h with ⟨σ, e', p', hw, ho, hs⟩
  have hstep : (respond limit goal (.want p) .negation).2 = .advance (.want (.negation :: p)) :=
    advance_of_advances (Advances.negation hn)
  refine ⟨σ, e', p', Walk.step rfl hstep hw, ho, ?_⟩
  exact settles_trans hs (Settles.negation (Settles.refl _ _))

/-- A group is put on the stack, and the closing parenthesis finishes all that
    has been opened since. -/
theorem reads_group {p : List Pending} {w : List Char} {e : Expr} (hn : nesting p < limit)
    (h : Reads limit goal .sum (.group :: p) w e) :
    Reads limit goal .factor p ('(' :: w ++ [')']) e := by
  rcases h with ⟨σ, e', p', hw, ho, hs⟩
  have hopen : (respond limit goal (.want p) .openParen).2 = .advance (.want (.group :: p)) :=
    advance_of_advances (Advances.group hn)
  have hclose : (respond limit goal σ .closeParen).2 = .advance (.complete e p) :=
    advance_of_advances (Advances.close ho hs)
  have hend : Walk limit goal σ [')'] (.complete e p) := Walk.step rfl hclose (Walk.stay _)
  exact ⟨.complete e p, e, p, Walk.step rfl hopen (walk_trans hw hend), rfl, Settles.refl e p⟩

/-- After the left side an operator finishes just that side and goes on the
    stack, where the right side finishes it. -/
theorem reads_connect {op : BinaryOp} {p : List Pending} {v w : List Char} {l r : Expr}
    (ha : (awaited goal p).floor ≤ op.precedence) (hl : Reads limit goal op.leftLevel p v l)
    (hr : Reads limit goal op.rightLevel (.operator l op :: p) w r) :
    Reads limit goal op.leftLevel p (v ++ op.char :: w) (.connect op l r) := by
  rcases hl with ⟨σ, e₁, p₁, hv, ho₁, hs₁⟩
  rcases hr with ⟨τ, e₂, p₂, hw, ho₂, hs₂⟩
  rw [BinaryOp.leftLevel_floor] at hs₁
  have hstep : (respond limit goal σ (.operator op)).2 = .advance (.want (.operator l op :: p)) :=
    advance_of_advances (Advances.operator ho₁ hs₁ ha)
  have hwalk := walk_trans hv (Walk.step (Symbol.classify_operator op) hstep hw)
  refine ⟨τ, e₂, p₂, hwalk, ho₂, ?_⟩
  -- The right side binds more tightly than the operator, so it settles first.
  have hlower : op.leftLevel.floor ≤ op.rightLevel.floor := by
    rw [BinaryOp.leftLevel_floor, BinaryOp.rightLevel_floor]
    omega
  have hop : op.leftLevel.floor ≤ op.precedence := Int.le_of_eq op.leftLevel_floor
  exact settles_trans (settles_lower hlower hs₂) (Settles.operator hop (Settles.refl _ _))

/-- Where the stack awaits its level and the limit leaves as many levels as
    there are characters, a sentence is read to its tree. -/
theorem reads_of_derives {lvl : Level} {w : List Char} {e : Expr} (hd : Derives lvl w e)
    {p : List Pending} (ha : (awaited goal p).floor ≤ lvl.floor)
    (hn : nesting p + w.length ≤ limit) : Reads limit goal lvl p w e := by
  -- Each constructor says where its parts are read: behind the construct that
  -- the machine has put on the stack by then.
  induction hd generalizing p with
  | leaf hc => exact reads_leaf hc .factor p
  | negation _ ih =>
      simp only [List.length_cons] at hn
      have hopen := nesting_cons_le .negation p
      exact reads_negation (by omega) (ih (Int.le_refl _) (by omega))
  | group _ ih =>
      simp only [List.length_append, List.length_cons] at hn
      have hopen := nesting_cons_le .group p
      exact reads_group (by omega) (ih (Int.le_refl _) (by omega))
  | factor _ ih => exact reads_lift (by decide) (ih (Int.le_trans ha (by decide)) hn)
  | product _ ih => exact reads_lift (by decide) (ih (Int.le_trans ha (by decide)) hn)
  | @conj v w l r _ _ ihl ihr =>
      simp only [List.length_append, List.length_cons] at hn
      have hright : nesting (.operator l .conj :: p) + w.length ≤ limit := by
        rw [nesting_operator]
        omega
      exact reads_connect ha (ihl ha (by omega)) (ihr (Int.le_refl _) hright)
  | @disj v w l r _ _ ihl ihr =>
      simp only [List.length_append, List.length_cons] at hn
      have hright : nesting (.operator l .disj :: p) + w.length ≤ limit := by
        rw [nesting_operator]
        omega
      exact reads_connect ha (ihl ha (by omega)) (ihr (Int.le_refl _) hright)

/-- When everything can be finished down to the goal's level, the machine
    stops before whatever that level does not allow to follow, and answers
    with the tree. -/
theorem verdict_of_settles {σ : Stage} {e e' : Expr} {p : List Pending} {rest : List Char}
    {next : Option Symbol} (ho : σ.operand? = some (e', p))
    (hs : Settles goal.level.floor e' p e []) (hnext : ahead rest = .ok next)
    (hend : ∀ op, next = some (.operator op) → op.precedence < goal.level.floor) :
    verdict limit goal σ rest = some (goal.finish next e) := by
  have hreduce : reduce e' p = (e, none) := reduce_of_settles hs
  -- The end of the input and most symbols reduce, and an operator is weighed.
  cases rest with
  | nil =>
      cases hnext
      rw [verdict, conclude_operand goal ho, close, hreduce]
  | cons c rest =>
      cases hc : Symbol.classify c with
      | error fault =>
          rw [ahead, hc] at hnext
          cases hnext
      | ok s =>
          rw [ahead, hc] at hnext
          cases hnext
          rw [verdict_symbol limit goal σ rest hc, respond_operand limit goal ho]
          by_cases hop : ∃ op, s = .operator op
          · rcases hop with ⟨op, rfl⟩
            have hlt := hend op rfl
            rw [follow, weigh_of_settles (Int.le_of_lt hlt) hs, weigh_end e hlt,
              outcome?_ofFinish]
          · rw [follow_of_not_operator goal e' p (fun op h => hop ⟨op, h⟩), hreduce]
            exact outcome?_ofFinish _

/-- A run that has read a sentence of the goal's level, before whatever that
    level does not allow to follow, ends with the tree that was read. -/
theorem consume_of_reads {v rest : List Char} {e : Expr} {next : Option Symbol}
    (h : Reads limit goal goal.level [] v e) (hnext : ahead rest = .ok next)
    (hend : ∀ op, next = some (.operator op) → op.precedence < goal.level.floor)
    (current : Option Token) (index : Nat) :
    (consume limit goal current (.want []) (v ++ rest) index).outcome = goal.finish next e := by
  rcases h with ⟨σ, e', p', hw, ho, hs⟩
  exact (consume_of_walk hw (verdict_of_settles ho hs hnext hend) current index).1

/-- A run over a sentence of the goal's level ends with the tree of the
    sentence. -/
theorem consume_of_derives {v rest : List Char} {e : Expr} {next : Option Symbol}
    (hd : Derives goal.level v e) (hnext : ahead rest = .ok next)
    (hend : ∀ op, next = some (.operator op) → op.precedence < goal.level.floor)
    (hlimit : v.length ≤ limit) (current : Option Token) (index : Nat) :
    (consume limit goal current (.want []) (v ++ rest) index).outcome = goal.finish next e := by
  have hn : nesting [] + v.length ≤ limit := by
    rw [nesting_nil]
    omega
  exact consume_of_reads (reads_of_derives hd (Int.le_refl _) hn) hnext hend current index

end BoolCalc
